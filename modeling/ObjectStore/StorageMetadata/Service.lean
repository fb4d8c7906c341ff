import ObjectStore.StorageMetadata.Store

/-!
# Storage metadata - The gRPC service of one node

The local branches of `StorageMetadataImpl` in `main.rs` and the object lookup of
`MetadataClusterServiceImpl` in `cluster_service.rs`, which answers the same
request when a peer forwards it.  A handler translates the kind of an I/O error
into a gRPC status and keeps the chunk index in step with the store.

Main definitions:

- `StorageMetadataImpl`: a node's store and its chunk index.
- `StorageMetadataImpl.getObject`, `forwardGetObject`: the two object lookups.
- `StorageMetadataImpl.healthCheck`: one round of the background health check.
-/

namespace ObjectStore
namespace StorageMetadata

/-! ## Messages of `storage_metadata.proto` -/

namespace Proto

/-- A storage node in an answer. -/
structure MetaStorageNode where
  id : UInt64
  address : String
deriving DecidableEq

/-- A chunk in an answer, with the storage nodes that its record names. -/
structure MetaChunk where
  id : UInt64
  checksum : UInt32
  storageNodes : List MetaStorageNode
deriving DecidableEq

/-- An object in a listing. -/
structure MetaObject where
  name : String
  checksum : UInt32
  chunks : List MetaChunk
  totalSize : UInt64
deriving DecidableEq

/-- The answer of `get_object`. -/
structure GetObjectResponse where
  checksum : UInt32
  chunks : List MetaChunk
deriving DecidableEq

/-- The answer of `get_chunk`. -/
structure GetChunkResponse where
  objectName : String
  checksum : UInt32
  storageNodes : List MetaStorageNode
deriving DecidableEq

/-- The answer of `allocate_chunk`. -/
structure AllocateChunkResponse where
  chunkId : UInt64
  storageNodeAddress : String
  storageNodeId : UInt64
deriving DecidableEq

/-- The answer of `put_chunk`. -/
structure PutChunkResponse where
  chunkId : UInt64
  storageNodeAddress : String
deriving DecidableEq

/-- A chunk that should get more replicas. -/
structure UnderReplicatedChunk where
  chunkId : UInt64
  checksum : UInt32
  currentStorageNodeIds : List UInt64
deriving DecidableEq

end Proto

/-! ## Looking up the chunks of an object -/

namespace MetadataStore

/-- The replicas of a chunk, as the client-facing handlers resolve them: one
unregistered node fails the request. -/
def resolveStorageNodes (self : MetadataStore) :
    List UInt64 → Except Status (List Proto.MetaStorageNode)
  | [] => .ok []
  | nodeId :: nodeIds =>
      match self.storageNodes[nodeId]? with
      | none =>
          .error ⟨.internal, s!"storage node {nodeId} referenced by chunk but not found"⟩
      | some node =>
          match self.resolveStorageNodes nodeIds with
          | .error status => .error status
          | .ok nodes => .ok (⟨nodeId, node.address⟩ :: nodes)

/-- The loop of `get_object` over the chunk list of an object. -/
def resolveChunks (self : MetadataStore) : List UInt64 → Except Status (List Proto.MetaChunk)
  | [] => .ok []
  | chunkId :: chunkIds =>
      match self.chunks[chunkId]? with
      | none => .error ⟨.internal, s!"chunk {chunkId} referenced by object but not found"⟩
      | some chunk =>
          match self.resolveStorageNodes chunk.storageNodes with
          | .error status => .error status
          | .ok storageNodes =>
              match self.resolveChunks chunkIds with
              | .error status => .error status
              | .ok chunks => .ok (⟨chunk.id, chunk.checksum, storageNodes⟩ :: chunks)

/-- The replicas of a chunk, as the forwarded and the listing handlers resolve
them: an unregistered node is left out. -/
def registeredStorageNodes (self : MetadataStore) (nodeIds : List UInt64) :
    List Proto.MetaStorageNode :=
  nodeIds.filterMap fun nodeId =>
    (self.storageNodes[nodeId]?).map fun node => ⟨nodeId, node.address⟩

/-- The loop of `forward_get_object` over the chunk list of an object. -/
def forwardChunks (self : MetadataStore) : List UInt64 → Except Status (List Proto.MetaChunk)
  | [] => .ok []
  | chunkId :: chunkIds =>
      match self.chunks[chunkId]? with
      | none => .error ⟨.internal, s!"chunk {chunkId} referenced but not found"⟩
      | some chunk =>
          match self.forwardChunks chunkIds with
          | .error status => .error status
          | .ok chunks =>
              .ok (⟨chunk.id, chunk.checksum, self.registeredStorageNodes chunk.storageNodes⟩
                :: chunks)

/-- The first lock acquisition of `get_object`. -/
def lookupObject (self : MetadataStore) (objectName : String) : Except Status MetaObject :=
  match self.getObject objectName with
  | .ok object => .ok object
  | .error error =>
      match error.kind with
      | .notFound => .error ⟨.notFound, "object not found"⟩
      | _ => .error ⟨.internal, "failed to get object"⟩

/-- The second lock acquisition of `get_object`. -/
def resolveObject (self : MetadataStore) (object : MetaObject) :
    Except Status Proto.GetObjectResponse :=
  match self.resolveChunks object.chunks with
  | .error status => .error status
  | .ok chunks => .ok ⟨object.checksum, chunks⟩

/-- `forward_get_object`, which holds one lock throughout. -/
def forwardGetObject (self : MetadataStore) (objectName : String) :
    Except Status Proto.GetObjectResponse :=
  match self.lookupObject objectName with
  | .error status => .error status
  | .ok object =>
      match self.forwardChunks object.chunks with
      | .error status => .error status
      | .ok chunks => .ok ⟨object.checksum, chunks⟩

end MetadataStore

/-! ## The handlers -/

/-- A node without a forwarding layer: every request is handled locally. -/
structure StorageMetadataImpl where
  metadataStore : MetadataStore
  chunkIndex : HashMap UInt64 String

namespace StorageMetadataImpl

variable (lib : External)

/-- Replace the store a call has worked on. -/
def withStore (self : StorageMetadataImpl) (store : MetadataStore) : StorageMetadataImpl :=
  { self with metadataStore := store }

@[simp]
theorem withStore_metadataStore (self : StorageMetadataImpl) (store : MetadataStore) :
    (self.withStore store).metadataStore = store :=
  rfl

@[simp]
theorem withStore_chunkIndex (self : StorageMetadataImpl) (store : MetadataStore) :
    (self.withStore store).chunkIndex = self.chunkIndex :=
  rfl

/-- `put_object`. -/
def putObject (io : SaveIo) (self : StorageMetadataImpl) (checksum : UInt32)
    (name : String) : Except Status Unit × StorageMetadataImpl :=
  match self.metadataStore.putObject lib io checksum name with
  | (.ok (), store) => (.ok (), self.withStore store)
  | (.error error, store) =>
      match error.kind with
      | .alreadyExists =>
          (.error ⟨.alreadyExists, s!"object name {name} already exists"⟩, self.withStore store)
      | _ => (.error ⟨.internal, "failed to store object"⟩, self.withStore store)

/-- `put_chunk`. -/
def putChunk (io : SaveIo) (draws : List UInt64) (pick : Nat) (self : StorageMetadataImpl)
    (objectName : String) (checksum : UInt32) :
    Option (Except Status Proto.PutChunkResponse × StorageMetadataImpl) :=
  (self.metadataStore.putChunk lib io draws pick objectName checksum).map fun
    | (.ok (chunkId, storageNodeAddress), store) =>
        (.ok ⟨chunkId, storageNodeAddress⟩,
          { metadataStore := store
            chunkIndex := self.chunkIndex.insert chunkId objectName })
    | (.error error, store) =>
        match error.kind with
        | .alreadyExists =>
            (.error ⟨.alreadyExists, "chunk id already exists"⟩, self.withStore store)
        | _ => (.error ⟨.internal, "failed to store chunk"⟩, self.withStore store)

/-- `get_object`: an unregistered storage node makes it fail. -/
def getObject (self : StorageMetadataImpl) (objectName : String) :
    Except Status Proto.GetObjectResponse :=
  match self.metadataStore.lookupObject objectName with
  | .error status => .error status
  | .ok object => self.metadataStore.resolveObject object

/-- `get_chunk`. -/
def getChunk (self : StorageMetadataImpl) (chunkId : UInt64) :
    Except Status Proto.GetChunkResponse :=
  match self.metadataStore.getChunk chunkId with
  | .error error =>
      match error.kind with
      | .notFound => .error ⟨.notFound, "chunk not found"⟩
      | _ => .error ⟨.internal, "failed to get chunk"⟩
  | .ok (objectName, chunk) =>
      match self.metadataStore.resolveStorageNodes chunk.storageNodes with
      | .error status => .error status
      | .ok storageNodes => .ok ⟨objectName, chunk.checksum, storageNodes⟩

/-- `delete_object`. -/
def deleteObject (io : SaveIo) (self : StorageMetadataImpl) (objectName : String) :
    Except Status Unit × StorageMetadataImpl :=
  let chunkIds :=
    match self.metadataStore.getObject objectName with
    | .ok object => object.chunks
    | .error _ => []
  match self.metadataStore.deleteObject lib io objectName with
  | (.ok (), store) =>
      (.ok (),
        { metadataStore := store
          chunkIndex := chunkIds.foldl (·.erase ·) self.chunkIndex })
  | (.error error, store) =>
      match error.kind with
      | .notFound => (.error ⟨.notFound, "object not found"⟩, self.withStore store)
      | _ => (.error ⟨.internal, "failed to delete object"⟩, self.withStore store)

/-- `delete_chunk`. -/
def deleteChunk (io : SaveIo) (self : StorageMetadataImpl) (chunkId : UInt64) :
    Except Status Unit × StorageMetadataImpl :=
  match self.metadataStore.deleteChunk lib io chunkId with
  | (.ok (), store) =>
      (.ok (), { metadataStore := store, chunkIndex := self.chunkIndex.erase chunkId })
  | (.error error, store) =>
      match error.kind with
      | .notFound => (.error ⟨.notFound, "chunk not found"⟩, self.withStore store)
      | _ => (.error ⟨.internal, "failed to delete chunk"⟩, self.withStore store)

/-- `put_storage_node`. -/
def putStorageNode (draws : List UInt64) (self : StorageMetadataImpl) (address : String) :
    Option (Except Status UInt64 × StorageMetadataImpl) :=
  (self.metadataStore.constructStorageNode lib draws address).map fun
    | (.ok storageNodeId, store) => (.ok storageNodeId, self.withStore store)
    | (.error error, store) =>
        match error.kind with
        | .invalidInput => (.error ⟨.invalidArgument, "invalid address"⟩, self.withStore store)
        | _ => (.error ⟨.internal, "failed to put storage node"⟩, self.withStore store)

/-- One object of `list_objects`: missing chunks and unregistered nodes are
skipped with a warning. -/
def listedObject (store : MetadataStore) (object : MetaObject) : Proto.MetaObject where
  name := object.name
  checksum := object.checksum
  chunks := object.chunks.filterMap fun chunkId =>
    (store.chunks[chunkId]?).map fun chunk =>
      ⟨chunk.id, chunk.checksum, store.registeredStorageNodes chunk.storageNodes⟩
  totalSize := object.totalSize

/-- `list_objects` of one node. -/
def listObjects (self : StorageMetadataImpl) : List Proto.MetaObject :=
  self.metadataStore.listObjects.map (listedObject self.metadataStore)

/-- `get_storage_node`. -/
def getStorageNode (self : StorageMetadataImpl) (id : UInt64) : Except Status String :=
  match self.metadataStore.getStorageNode id with
  | .ok address => .ok address
  | .error error =>
      match error.kind with
      | .notFound => .error ⟨.notFound, error.message⟩
      | _ => .error ⟨.internal, "failed to get storage node"⟩

/-- `list_storage_nodes`. -/
def listStorageNodes (self : StorageMetadataImpl) : List Proto.MetaStorageNode :=
  self.metadataStore.listStorageNodes.map fun node => ⟨node.id, node.address⟩

/-- `delete_storage_node`. -/
def deleteStorageNode (self : StorageMetadataImpl) (id : UInt64) :
    Except Status Unit × StorageMetadataImpl :=
  match self.metadataStore.deleteStorageNode id with
  | (.ok (), store) => (.ok (), self.withStore store)
  | (.error _, store) =>
      (.error ⟨.internal, s!"could not delete storage node {id}"⟩, self.withStore store)

/-- `list_under_replicated_chunks`; a limit of zero stands for the default. -/
def listUnderReplicatedChunks (self : StorageMetadataImpl) (maxReplicas : UInt32) :
    List Proto.UnderReplicatedChunk :=
  let maxReplicas := if maxReplicas = 0 then 3 else maxReplicas.toNat
  ((self.metadataStore.listUnderReplicatedChunks maxReplicas).map fun chunk =>
      (⟨chunk.id, chunk.checksum, chunk.storageNodes⟩ : Proto.UnderReplicatedChunk)).insertionSort
    fun a b => a.currentStorageNodeIds.length ≤ b.currentStorageNodeIds.length

/-- `add_chunk_replica`. -/
def addChunkReplica (io : SaveIo) (self : StorageMetadataImpl)
    (chunkId storageNodeId : UInt64) : Except Status Unit × StorageMetadataImpl :=
  match self.metadataStore.addChunkReplica lib io chunkId storageNodeId with
  | (.ok (), store) => (.ok (), self.withStore store)
  | (.error error, store) =>
      match error.kind with
      | .notFound => (.error ⟨.notFound, error.message⟩, self.withStore store)
      | .alreadyExists => (.error ⟨.alreadyExists, error.message⟩, self.withStore store)
      | .invalidInput => (.error ⟨.failedPrecondition, error.message⟩, self.withStore store)
      | _ => (.error ⟨.internal, "failed to add chunk replica"⟩, self.withStore store)

/-- `allocate_chunk`; the checksum of the request is not looked at. -/
def allocateChunk (draws : List UInt64) (pick : Nat) (self : StorageMetadataImpl)
    (objectName : String) :
    Option (Except Status Proto.AllocateChunkResponse × StorageMetadataImpl) :=
  (self.metadataStore.allocateChunk draws pick objectName).map fun
    | (.ok (chunkId, storageNodeId, storageNodeAddress), store) =>
        (.ok ⟨chunkId, storageNodeAddress, storageNodeId⟩, self.withStore store)
    | (.error error, store) => (.error ⟨.unavailable, error.message⟩, self.withStore store)

/-- `confirm_chunk`. -/
def confirmChunk (io : SaveIo) (self : StorageMetadataImpl) (chunkId : UInt64)
    (objectName : String) (checksum : UInt32) (storageNodeId : UInt64) :
    Except Status Unit × StorageMetadataImpl :=
  match self.metadataStore.confirmChunk lib io chunkId objectName checksum storageNodeId with
  | (.ok (), store) =>
      (.ok (),
        { metadataStore := store
          chunkIndex := self.chunkIndex.insert chunkId objectName })
  | (.error error, store) =>
      match error.kind with
      | .notFound => (.error ⟨.notFound, error.message⟩, self.withStore store)
      | .alreadyExists => (.error ⟨.alreadyExists, error.message⟩, self.withStore store)
      | _ => (.error ⟨.internal, "failed to confirm chunk"⟩, self.withStore store)

/-- `update_object_checksum`. -/
def updateObjectChecksum (io : SaveIo) (self : StorageMetadataImpl) (objectName : String)
    (checksum : UInt32) (totalSize : UInt64) : Except Status Unit × StorageMetadataImpl :=
  match self.metadataStore.updateObjectChecksum lib io objectName checksum totalSize with
  | (.ok (), store) => (.ok (), self.withStore store)
  | (.error error, store) =>
      match error.kind with
      | .notFound => (.error ⟨.notFound, error.message⟩, self.withStore store)
      | _ => (.error ⟨.internal, "failed to update object checksum"⟩, self.withStore store)

end StorageMetadataImpl

/-- The end of a round of `health_check`: every node whose check failed leaves
the registry. -/
def MetadataStore.healthCheck (self : MetadataStore) (deleteIds : List UInt64) :
    MetadataStore :=
  { self with storageNodes := deleteIds.foldl (·.erase ·) self.storageNodes }

end StorageMetadata
end ObjectStore
