import ObjectStore.StorageMetadata.Cluster
import ObjectStore.StorageMetadata.Handler

/-!
# Storage metadata - Routing by the ring of the receiver

A node hands a request for an object to the owner of its name, on the ring that the node
has at that moment: `get_owner_addr` in `cluster.rs`, `route_by_object` in
`forwarding.rs`, and the object handlers of `cluster_service.rs` that serve the
forwarded request.

Main definitions:

- `ClusterManager.updateRing`: the first of the writes that a tick of the watcher makes.
- `ClusterManager.getOwnerAddr`, `ClusterManager.routeByObject`: where a request goes.
- `StorageMetadataImpl.forwardPutObject` and its kind: the handlers of forwarded requests.
-/

namespace ObjectStore
namespace StorageMetadata

/-! ## The ring in a tick -/

namespace ClusterManager

variable {Client : Type} (hash : String → UInt64)

/-- A tick's write to the ring. -/
def updateRing (self : ClusterManager Client) (liveNodeIds : List String) :
    ClusterManager Client :=
  let currentNodes := self.ring.nodes
  let added := liveNodeIds.foldl (fun ring nid =>
    if nid ≠ self.nodeId ∧ nid ∉ currentNodes then ring.addNode hash nid else ring) self.ring
  let removed := currentNodes.foldl (fun ring nid =>
    if nid ≠ self.nodeId ∧ nid ∉ liveNodeIds then ring.removeNode nid else ring) added
  { self with ring := removed }

@[simp]
theorem updateRing_nodeId (self : ClusterManager Client) (liveNodeIds : List String) :
    (self.updateRing hash liveNodeIds).nodeId = self.nodeId :=
  rfl

@[simp]
theorem updateRing_peerAddrs (self : ClusterManager Client) (liveNodeIds : List String) :
    (self.updateRing hash liveNodeIds).peerAddrs = self.peerAddrs :=
  rfl

/-! ## Routing -/

/-- `get_owner_addr`: no address for a name of its own, nor for an owner whose address is
not known. -/
def getOwnerAddr (self : ClusterManager Client) (key : String) : Option String :=
  match self.ring.getOwner hash key with
  | some owner => if owner = self.nodeId then none else self.peerAddrs[owner]?
  | none => none

/-- `get_all_peer_addrs`; the order is that of a hash map. -/
def getAllPeerAddrs (self : ClusterManager Client) : List String :=
  (self.peerAddrs.toList.filter fun peer => peer.1 ≠ self.nodeId).map Prod.snd

end ClusterManager

/-- `RouteAction`. -/
inductive RouteAction where
  | local
  | forward (addr : String)
deriving DecidableEq

/-- `route_by_object`. -/
def ClusterManager.routeByObject {Client : Type} (hash : String → UInt64)
    (self : ClusterManager Client) (objectName : String) : RouteAction :=
  match self.getOwnerAddr hash objectName with
  | some addr => .forward addr
  | none => .local

/-! ## The handlers of forwarded requests -/

namespace StorageMetadataImpl

variable (lib : External)

/-- `forward_put_object` at the owner. -/
def forwardPutObject (io : SaveIo) (self : StorageMetadataImpl) (checksum : UInt32)
    (name : String) : Except Status Unit × StorageMetadataImpl :=
  match self.metadataStore.putObject lib io checksum name with
  | (.ok (), store) => (.ok (), self.withStore store)
  | (.error error, store) =>
      (.error ⟨.internal, s!"put_object failed: {error.message}"⟩, self.withStore store)

/-- `forward_get_object` at the owner; unregistered storage nodes are left out of the answer. -/
def forwardGetObject (self : StorageMetadataImpl) (objectName : String) :
    Except Status Proto.GetObjectResponse :=
  self.metadataStore.forwardGetObject objectName

/-- `forward_delete_object` at the owner. -/
def forwardDeleteObject (io : SaveIo) (self : StorageMetadataImpl) (objectName : String) :
    Except Status Unit × StorageMetadataImpl :=
  let chunkIds :=
    match self.metadataStore.getObject objectName with
    | .ok object => object.chunks
    | .error _ => []
  match self.metadataStore.deleteObject lib io objectName with
  | (.ok (), store) =>
      (.ok (),
        { metadataStore := store
          chunkIndex := chunkIds.foldl (·.erase ·) self.chunkIndex })
  | (.error error, store) =>
      match error.kind with
      | .notFound => (.error ⟨.notFound, "object not found"⟩, self.withStore store)
      | _ => (.error ⟨.internal, "failed to delete object"⟩, self.withStore store)

/-- `forward_put_chunk` at the owner. -/
def forwardPutChunk (io : SaveIo) (draws : List UInt64) (pick : Nat)
    (self : StorageMetadataImpl) (objectName : String) (checksum : UInt32) :
    Option (Except Status Proto.PutChunkResponse × StorageMetadataImpl) :=
  (self.metadataStore.putChunk lib io draws pick objectName checksum).map fun
    | (.ok (chunkId, storageNodeAddress), store) =>
        (.ok ⟨chunkId, storageNodeAddress⟩,
          { metadataStore := store
            chunkIndex := self.chunkIndex.insert chunkId objectName })
    | (.error error, store) =>
        (.error ⟨.internal, s!"put_chunk failed: {error.message}"⟩, self.withStore store)

/-- `forward_allocate_chunk` at the owner. -/
def forwardAllocateChunk (draws : List UInt64) (pick : Nat) (self : StorageMetadataImpl)
    (objectName : String) :
    Option (Except Status Proto.AllocateChunkResponse × StorageMetadataImpl) :=
  (self.metadataStore.allocateChunk draws pick objectName).map fun
    | (.ok (chunkId, storageNodeId, storageNodeAddress), store) =>
        (.ok ⟨chunkId, storageNodeAddress, storageNodeId⟩, self.withStore store)
    | (.error error, store) => (.error ⟨.unavailable, error.message⟩, self.withStore store)

/-- `forward_confirm_chunk` at the owner. -/
def forwardConfirmChunk (io : SaveIo) (self : StorageMetadataImpl) (chunkId : UInt64)
    (objectName : String) (checksum : UInt32) (storageNodeId : UInt64) :
    Except Status Unit × StorageMetadataImpl :=
  match self.metadataStore.confirmChunk lib io chunkId objectName checksum storageNodeId with
  | (.ok (), store) =>
      (.ok (),
        { metadataStore := store
          chunkIndex := self.chunkIndex.insert chunkId objectName })
  | (.error error, store) =>
      match error.kind with
      | .notFound => (.error ⟨.notFound, error.message⟩, self.withStore store)
      | .alreadyExists => (.error ⟨.alreadyExists, error.message⟩, self.withStore store)
      | _ => (.error ⟨.internal, "failed to confirm chunk"⟩, self.withStore store)

/-- `forward_get_chunk`, which leaves unregistered nodes out. -/
def forwardGetChunk (self : StorageMetadataImpl) (chunkId : UInt64) :
    Except Status Proto.GetChunkResponse :=
  match self.metadataStore.getChunk chunkId with
  | .error error =>
      match error.kind with
      | .notFound => .error ⟨.notFound, "chunk not found"⟩
      | _ => .error ⟨.internal, "failed to get chunk"⟩
  | .ok (objectName, chunk) =>
      .ok ⟨objectName, chunk.checksum,
        self.metadataStore.registeredStorageNodes chunk.storageNodes⟩

/-- `forward_delete_chunk` at the owner. -/
def forwardDeleteChunk (io : SaveIo) (self : StorageMetadataImpl) (chunkId : UInt64) :
    Except Status Unit × StorageMetadataImpl :=
  match self.metadataStore.deleteChunk lib io chunkId with
  | (.ok (), store) =>
      (.ok (), { metadataStore := store, chunkIndex := self.chunkIndex.erase chunkId })
  | (.error error, store) =>
      match error.kind with
      | .notFound => (.error ⟨.notFound, "chunk not found"⟩, self.withStore store)
      | _ => (.error ⟨.internal, "failed to delete chunk"⟩, self.withStore store)

/-- `forward_add_chunk_replica` at the owner. -/
def forwardAddChunkReplica (io : SaveIo) (self : StorageMetadataImpl)
    (chunkId storageNodeId : UInt64) : Except Status Unit × StorageMetadataImpl :=
  match self.metadataStore.addChunkReplica lib io chunkId storageNodeId with
  | (.ok (), store) => (.ok (), self.withStore store)
  | (.error error, store) =>
      match error.kind with
      | .notFound => (.error ⟨.notFound, error.message⟩, self.withStore store)
      | .alreadyExists => (.error ⟨.alreadyExists, error.message⟩, self.withStore store)
      | .invalidInput => (.error ⟨.failedPrecondition, error.message⟩, self.withStore store)
      | _ => (.error ⟨.internal, "failed to add chunk replica"⟩, self.withStore store)

end StorageMetadataImpl

theorem forwardPutObject_mirrors {lib : External} {io : SaveIo} (node : StorageMetadataImpl)
    (checksum : UInt32) (name : String) :
    Mirrors (node.forwardPutObject lib io checksum name)
      (node.metadataStore.putObject lib io checksum name) := by
  unfold StorageMetadataImpl.forwardPutObject
  split
  · rename_i h
    simp [Mirrors, h]
  · rename_i h
    simp [Mirrors, h]

end StorageMetadata
end ObjectStore
