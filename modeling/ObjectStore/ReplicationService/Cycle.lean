import ObjectStore.Deployment.Effect
import ObjectStore.Library.Crc32
import ObjectStore.StorageMetadata.Integrity
import ObjectStore.StorageMetadata.Json

/-!
# Replication service - One cycle

`run_replication_cycle` in `main.rs` as a program over the calls that it makes.  A cycle lists
the chunks that have too few replicas and takes them one after the other: it reads a chunk from
its first replica, writes it to another storage node and records the new replica.  A replica
that could not be recorded is deleted again.  Metrics and tracing are left out, except for the
labels under which failures are counted.

Main definitions:

- `replicateChunk`: what the cycle does for one chunk.
- `runReplicationCycle`: the cycle.
- `StoredAt`, `ReplicasStored`: the recorded replicas really exist.

Main results:

- Theorem `reachable_located`: reachable nodes are as the results about cycles suppose.
- Theorem `Step.under_replicated`: the listed chunks are the records that the listing found.
-/

namespace ObjectStore
namespace ReplicationService

open Deployment (Call Environment Faults Program Services Step)
open StorageMetadata (MetaChunk ChunkStatus)
open StorageMetadata.Proto (MetaStorageNode UnderReplicatedChunk)

/-- The number of replicas that a chunk should have. -/
def MAX_REPLICAS : UInt32 := 3

/-- What the cycle makes of one chunk. -/
inductive ChunkOutcome where
  | replicated
  | skipped
  /-- Counted under this label. -/
  | failed (label : String)
deriving DecidableEq

/-- What a cycle logs when it is done. -/
structure CycleReport where
  totalUnderReplicated : Nat
  /-- Left out by the rate limit. -/
  skipped : Nat
  /-- One for each chunk that was processed. -/
  outcomes : List ChunkOutcome
deriving DecidableEq

/-! ## One chunk -/

/-- `has_space`: the node can be connected to and has a free slot. -/
def hasSpace (targetAddress : String) : Program Bool := do
  match ← Program.connect targetAddress with
  | .error _ => pure false
  | .ok () =>
      match ← Program.storageNode targetAddress .getFreeChunks with
      | .error _ => pure false
      | .ok (numFree : Nat) => pure (decide (0 < numFree))

/-- Read the chunk from an existing replica. -/
def readSource (chunkId sourceNodeId : UInt64) : Program (Except String Bytes) := do
  match ← Program.metadata (.getStorageNode sourceNodeId) with
  | .error _ => pure (.error "connect_source")
  | .ok sourceAddress =>
      match ← Program.connect sourceAddress with
      | .error _ => pure (.error "connect_source")
      | .ok () =>
          match ← Program.storageNode sourceAddress (.readChunk chunkId) with
          | .error _ => pure (.error "read_chunk")
          | .ok resp => pure (.ok resp.chunkBytes)

/-- The write to the target node. -/
def writeTarget (targetAddress : String) (chunkId : UInt64) (chunkData : Bytes) :
    Program (Except String Unit) := do
  match ← Program.connect targetAddress with
  | .error _ => pure (.error "connect_target")
  | .ok () =>
      match ← Program.storageNode targetAddress (.writeChunk chunkId chunkData) with
      | .error _ => pure (.error "write_chunk")
      | .ok _ => pure (.ok ())

/-- Delete the copy that could not be recorded, if the target can be reached. -/
def cleanUp (targetAddress : String) (chunkId : UInt64) : Program Unit := do
  match ← Program.connect targetAddress with
  | .error _ => pure ()
  | .ok () =>
      let _ ← Program.storageNode targetAddress (.deleteChunk chunkId)
      pure ()

/-- Record the new replica, or clean it up. -/
def recordReplica (chunkId : UInt64) (targetNode : MetaStorageNode) : Program ChunkOutcome := do
  match ← Program.metadata (.addChunkReplica chunkId targetNode.id) with
  | .ok () => pure .replicated
  | .error _ => do
      cleanUp targetNode.address chunkId
      pure (.failed "update_metadata")

/-- Copy the chunk, once the target is known to have space. -/
def copyChunk (crc32 : Bytes → UInt32) (chunk : UnderReplicatedChunk)
    (targetNode : MetaStorageNode) : Program ChunkOutcome := do
  match chunk.currentStorageNodeIds with
  | [] => pure .skipped
  | sourceNodeId :: _ =>
      match ← readSource chunk.chunkId sourceNodeId with
      | .error label => pure (.failed label)
      | .ok chunkData =>
          if crc32 chunkData ≠ chunk.checksum then pure (.failed "checksum_mismatch")
          else
            match ← writeTarget targetNode.address chunk.chunkId chunkData with
            | .error label => pure (.failed label)
            | .ok () => recordReplica chunk.chunkId targetNode

/-- The body of the loop over the chunks. -/
def replicateChunk (crc32 : Bytes → UInt32) (nodes : List MetaStorageNode)
    (chunk : UnderReplicatedChunk) : Program ChunkOutcome := do
  let eligibleNodes := nodes.filter fun n => !chunk.currentStorageNodeIds.contains n.id
  if eligibleNodes.isEmpty then pure .skipped
  else
    let picked : Nat ← Program.perform (.choose eligibleNodes.length)
    match eligibleNodes[picked]? with
    | none => pure .skipped
    | some targetNode => do
        let space ← hasSpace targetNode.address
        if space then copyChunk crc32 chunk targetNode
        else pure .skipped

/-! ## The cycle -/

/-- The loop over the chunks of a cycle. -/
def replicateChunks (crc32 : Bytes → UInt32) (nodes : List MetaStorageNode) :
    List UnderReplicatedChunk → Program (List ChunkOutcome)
  | [] => pure []
  | chunk :: chunks => do
      let outcome ← replicateChunk crc32 nodes chunk
      let outcomes ← replicateChunks crc32 nodes chunks
      pure (outcome :: outcomes)

/-- `run_replication_cycle`; a cycle that cannot start reports the label of its failure. -/
def runReplicationCycle (crc32 : Bytes → UInt32) (maxChunksPerCycle : Nat) :
    Program (Except String CycleReport) := do
  match ← Program.metadata (.listUnderReplicatedChunks MAX_REPLICAS) with
  | .error _ => pure (.error "list_chunks")
  | .ok (chunks : List UnderReplicatedChunk) =>
      if chunks.isEmpty then pure (.ok ⟨0, 0, []⟩)
      else
        match ← Program.metadata .listStorageNodes with
        | .error _ => pure (.error "list_nodes")
        | .ok (nodes : List MetaStorageNode) =>
            if nodes.isEmpty then pure (.ok ⟨chunks.length, 0, []⟩)
            else do
              let outcomes ← replicateChunks crc32 nodes (chunks.take maxChunksPerCycle)
              pure (.ok ⟨chunks.length, chunks.length - maxChunksPerCycle, outcomes⟩)

/-! ## Calls that only look -/

/-- The calls before the first write for a chunk. -/
def Looks : Call → Prop
  | .metadata (.getStorageNode _) | .connect _ | .storageNode _ .getFreeChunks
  | .storageNode _ (.readChunk _) | .choose _ => True
  | _ => False

theorem Looks.reads {call : Call} (h : Looks call) : call.Reads := by
  cases call with
  | metadata call => cases call <;> first | exact h | trivial
  | storageNode address call => cases call <;> first | exact h | trivial
  | _ => trivial

/-- The same; only the chunk `id` is read, and only from something is chosen. -/
def LooksFor (id : UInt64) : Call → Prop
  | .metadata (.getStorageNode _) | .connect _ | .storageNode _ .getFreeChunks => True
  | .storageNode _ (.readChunk other) => other = id
  | .choose count => 0 < count
  | _ => False

theorem LooksFor.looks {id : UInt64} {call : Call} (h : LooksFor id call) : Looks call := by
  cases call with
  | metadata call => cases call <;> exact h
  | storageNode address call => cases call <;> first | exact h | trivial
  | connect _ | choose _ => trivial
  | cachedConnection _ | connectCached _ | turn => exact h

/-- The check for room changes nothing. -/
theorem hasSpace_looksFor (targetAddress : String) (id : UInt64) :
    (hasSpace targetAddress).Only (LooksFor id) := by
  refine ⟨trivial, fun (connected : Except String Unit) => ?_⟩
  cases connected with
  | error _ => trivial
  | ok _ =>
      refine ⟨trivial, fun (free : Except Status Nat) => ?_⟩
      cases free <;> trivial

/-- Reading the source changes nothing. -/
theorem readSource_looksFor (chunkId sourceNodeId : UInt64) :
    (readSource chunkId sourceNodeId).Only (LooksFor chunkId) := by
  refine ⟨trivial, fun (found : Except Status String) => ?_⟩
  cases found with
  | error _ => trivial
  | ok sourceAddress =>
      refine ⟨trivial, fun (connected : Except String Unit) => ?_⟩
      cases connected with
      | error _ => trivial
      | ok _ =>
          refine ⟨rfl, fun (read : Except Status StorageNode.ReadChunkResponse) => ?_⟩
          cases read <;> trivial

theorem hasSpace_looks (targetAddress : String) : (hasSpace targetAddress).Only Looks :=
  (hasSpace_looksFor targetAddress 0).mono fun _ h => h.looks

theorem readSource_looks (chunkId sourceNodeId : UInt64) :
    (readSource chunkId sourceNodeId).Only Looks :=
  (readSource_looksFor chunkId sourceNodeId).mono fun _ h => h.looks

/-! ## Recorded replicas -/

section

variable (env : Environment) (home : UInt64 → String) (scope : ChunkStatus → Prop)

/-- The storage node holds the chunk, with the recorded checksum.  `home` gives the address
behind the id of a storage node. -/
def Holds (s : Services) (id : UInt64) (checksum : UInt32) (nodeId : UInt64) : Prop :=
  ∃ bytes, s.dataAt (home nodeId) id = some bytes ∧ env.crc32 bytes = checksum

/-- Every replica that is recorded for the chunk really exists, if its record has a status in
`scope`. -/
def StoredAt (s : Services) (id : UInt64) : Prop :=
  ∀ chunk, s.metadata.metadataStore.chunks[id]? = some chunk → scope chunk.status →
    ∀ nodeId ∈ chunk.storageNodes, Holds env home s id chunk.checksum nodeId

/-- Each recorded replica of a chunk in the scope is stored on its node. -/
def ReplicasStored (s : Services) : Prop :=
  ∀ id, StoredAt env home scope s id

/-- The registry and `home` agree. -/
def Located (s : Services) : Prop :=
  ∀ node ∈ s.metadata.listStorageNodes, home node.id = node.address

end

/-- Every chunk record is stored under its own id. -/
def ChunksKeyed (s : Services) : Prop :=
  ∀ (id : UInt64) (chunk : MetaChunk), s.metadata.metadataStore.chunks[id]? = some chunk →
    chunk.id = id

/-- A reachable metadata node keeps its records under their ids, and its registry gives each
storage node one address. -/
theorem reachable_located {lib : StorageMetadata.External} (hlib : lib.Lawful)
    {allowed : StorageMetadata.MetadataStore → StorageMetadata.Event → Prop} {s : Services}
    (hs : StorageMetadata.Reachable lib allowed s.metadata.metadataStore) :
    ChunksKeyed s ∧ ∃ home, Located home s := by
  constructor
  · rcases hs with ⟨g, hrun⟩
    exact fun id chunk hchunk => (hrun.keyed hlib).1.chunk hchunk
  · refine ⟨fun nodeId => (s.metadata.metadataStore.storageNodes[nodeId]?).elim "" (·.address),
      fun node hnode => ?_⟩
    rcases List.mem_map.mp hnode with ⟨registered, hregistered, rfl⟩
    rcases HashMap.mem_valueList.mp hregistered with ⟨id, hid⟩
    have hkey : registered.id = id := hs.registryKeyed id registered hid
    dsimp only
    rw [hkey, hid]
    rfl

/-- A chunk that has been listed, and its record. -/
structure ListedFrom (s : Services) (chunk : UnderReplicatedChunk) (record : MetaChunk) :
    Prop where
  stored : s.metadata.metadataStore.chunks[chunk.chunkId]? = some record
  confirmed : record.status = .confirmed
  checksum : record.checksum = chunk.checksum

variable {env : Environment} {faults : Faults} {s s' : Services}

/-! ## What the listings reply -/

/-- A listed chunk has a record that needs replicas. -/
theorem Step.under_replicated {maxReplicas : UInt32} {chunks : List UnderReplicatedChunk}
    (hkeyed : ChunksKeyed s)
    (h : Step env faults s (.metadata (.listUnderReplicatedChunks maxReplicas)) (.ok chunks) s') :
    ∀ chunk ∈ chunks, ∃ record, ListedFrom s chunk record := by
  rcases h.any.metadata_effect_any with ⟨_, m, heffect, _, rfl | ⟨_, hfailed⟩⟩
  · intro chunk hchunk
    cases heffect with
    | listUnderReplicatedChunks hchunks =>
        rcases hchunks chunk hchunk with ⟨record, hrecord, hstatus, rfl⟩
        rcases HashMap.mem_valueList.mp hrecord with ⟨id, hid⟩
        have hkey : record.id = id := hkeyed id record hid
        refine ⟨record, ?_, hstatus, rfl⟩
        rw [hkey]
        exact hid
  · cases hfailed

/-- Listed nodes have the addresses that they are registered with. -/
theorem Step.storage_nodes {home : UInt64 → String} {nodes : List MetaStorageNode}
    (hlocated : Located home s)
    (h : Step env faults s (.metadata .listStorageNodes) (.ok nodes) s') :
    ∀ node ∈ nodes, home node.id = node.address := by
  rcases h.any.metadata_effect_any with ⟨_, m, heffect, _, rfl | ⟨_, hfailed⟩⟩
  · intro node hnode
    cases heffect with
    | listStorageNodes hnodes => exact hlocated node (hnodes.mem_iff.mp hnode)
  · cases hfailed

/-! ## One chunk and two storage nodes -/

/-- The environment of the runs below. -/
def plainEnvironment : Environment := ⟨StorageMetadata.jsonLib, Library.crc32, .slotDataSize⟩

/-- A chunk with the recorded replica on the first of two storage nodes. -/
def oneReplica : Services where
  metadata :=
    ⟨{ files := .empty
       objects := (∅ : HashMap String StorageMetadata.MetaObject).insert "a" ⟨"a", 7, [10], 1⟩
       chunks := (∅ : HashMap UInt64 MetaChunk).insert 10
         ⟨10, "a", Library.crc32 [104], [1], .confirmed⟩
       storageNodes := ((∅ : HashMap UInt64 StorageMetadata.MetaStorageNode).insert 1
         ⟨1, "http://node-a:50051"⟩).insert 2 ⟨2, "http://node-b:50051"⟩ }, ∅⟩
  nodes := ((∅ : HashMap String StorageNode.BoundedMap).insert "http://node-a:50051"
    ((StorageNode.BoundedMap.empty 4).handle Library.crc32 .slotDataSize
      (.writeChunk 10 [104])).2).insert "http://node-b:50051" (.empty 4)
  storageConnections := []

/-- The address of each storage node of `oneReplica`. -/
def oneReplicaHome (nodeId : UInt64) : String :=
  if nodeId = 1 then "http://node-a:50051" else "http://node-b:50051"

theorem oneReplica_chunk {id : UInt64} {chunk : MetaChunk}
    (h : oneReplica.metadata.metadataStore.chunks[id]? = some chunk) :
    id = 10 ∧ chunk = ⟨10, "a", Library.crc32 [104], [1], .confirmed⟩ := by
  unfold oneReplica at h
  rw [Std.ExtTreeMap.getElem?_insert] at h
  split at h
  · rename_i heq
    exact ⟨(Std.LawfulEqCmp.eq_of_compare heq).symm, (Option.some.inj h).symm⟩
  · simp at h

theorem oneReplica_keyed : ChunksKeyed oneReplica := by
  intro id chunk hchunk
  rcases oneReplica_chunk hchunk with ⟨rfl, rfl⟩
  rfl

theorem oneReplica_located : Located oneReplicaHome oneReplica := by
  unfold Located
  decide +kernel

theorem oneReplica_stored (scope : ChunkStatus → Prop) :
    ReplicasStored plainEnvironment oneReplicaHome scope oneReplica := by
  intro id chunk hchunk _ nodeId hnode
  rcases oneReplica_chunk hchunk with ⟨rfl, rfl⟩
  cases List.mem_singleton.mp hnode
  exact ⟨[104], by decide +kernel, rfl⟩

/-- A cycle that copies the chunk to the second storage node. -/
theorem oneReplica_copied : ∃ (report : CycleReport) (s' : Services),
    report.outcomes = [.replicated] ∧
      (runReplicationCycle plainEnvironment.crc32 100).Runs (Step plainEnvironment .withoutEffect)
        oneReplica (.ok report) s' := by
  let check := fun result : Except String CycleReport =>
    result.toOption.any fun report => decide (report.outcomes = [.replicated])
  have hrun : ((runReplicationCycle plainEnvironment.crc32 100).replay
      (Services.next plainEnvironment) (List.replicate 11 (.serve .plain)) oneReplica).any
        (fun result => check result.1) = true := by
    decide +kernel
  rcases Deployment.scripted_plain (fun _ _ _ _ hstep => hstep) hrun with
    ⟨value, s', hruns, hcheck⟩
  cases value with
  | error label => cases hcheck
  | ok report => exact ⟨report, s', of_decide_eq_true hcheck, hruns⟩

end ReplicationService
end ObjectStore
