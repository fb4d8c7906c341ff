import ObjectStore.StorageMetadata.Integrity

/-!
# Storage metadata - Reading objects after storage nodes are lost

Replication keeps a chunk on up to three storage nodes so that it survives the loss
of some of them.  The forwarded lookup serves an object as long as one replica of
every chunk is left.  The client-facing lookup needs all of them.

Main results:

- Theorem `forwardGetObject_serves`: one replica of every chunk is enough.
- Theorem `getObject_serves_iff`: exactly when the client-facing lookup serves.
- Theorem `getObject_fails_with_replica_left`: a reachable state where it does not.
-/

namespace ObjectStore
namespace StorageMetadata

/-- Some replica recorded for the chunk is on a registered storage node. -/
def HasLiveReplica (s : MetadataStore) (id : UInt64) : Prop :=
  ∃ chunk, s.chunks[id]? = some chunk ∧
    ∃ nodeId ∈ chunk.storageNodes, nodeId ∈ s.storageNodes

/-- The response lists the object's chunks in order, each with the address of at
least one recorded and registered replica. -/
structure Serves (s : MetadataStore) (object : MetaObject)
    (response : Proto.GetObjectResponse) : Prop where
  order : response.chunks.map (·.id) = object.chunks
  replica : ∀ chunk ∈ response.chunks, ∃ node ∈ chunk.storageNodes,
    ∃ record registered, s.chunks[chunk.id]? = some record ∧ node.id ∈ record.storageNodes ∧
      s.storageNodes[node.id]? = some registered ∧ node.address = registered.address

variable {s : MetadataStore} {object : MetaObject}

/-- Chunks with live replicas have records. -/
theorem recorded_of_hasLiveReplica (h : ∀ id ∈ object.chunks, HasLiveReplica s id) :
    Recorded s object.chunks := by
  intro id hid
  obtain ⟨chunk, hchunk, _⟩ := h id hid
  exact ⟨chunk, hchunk⟩

/-- The response built from the registered replicas serves every object that has a
live replica of each chunk. -/
theorem response_serves (hkeyed : Keyed s.maps)
    (hlive : ∀ id ∈ object.chunks, HasLiveReplica s id) :
    Serves s object (s.response object) where
  order := map_id_response hkeyed (recorded_of_hasLiveReplica hlive)
  replica := by
    intro described hdescribed
    simp only [MetadataStore.response, List.mem_filterMap, Option.map_eq_some_iff] at hdescribed
    obtain ⟨id, hid, chunk, hchunk, rfl⟩ := hdescribed
    obtain ⟨record, hrecord, nodeId, hmem, hregistered⟩ := hlive id hid
    obtain rfl : chunk = record := Option.some.inj (hchunk.symm.trans hrecord)
    obtain ⟨node, hnode⟩ := HashMap.mem_iff_exists_getElem?.mp hregistered
    refine ⟨⟨nodeId, node.address⟩, mem_registeredStorageNodes.mpr ⟨hmem, node, hnode, rfl⟩,
      chunk, node, ?_, hmem, hnode, rfl⟩
    have hkey : chunk.id = id := hkeyed.chunk hchunk
    simpa [MetadataStore.describe, hkey] using hchunk

/-- The lookup that peers forward serves an object while one replica of each of its
chunks is left. -/
theorem forwardGetObject_serves {lib : External} (hlib : lib.Lawful)
    (hs : Reachable lib anyEvent s) {name : String}
    (hname : s.objects[name]? = some object)
    (hlive : ∀ id ∈ object.chunks, HasLiveReplica s id) :
    ∃ response, s.forwardGetObject name = .ok response ∧ Serves s object response := by
  obtain ⟨g, hrun⟩ := hs
  exact ⟨_, forwardGetObject_eq hname (recorded_of_hasLiveReplica hlive),
    response_serves (hrun.keyed hlib).1 hlive⟩

/-- The client-facing lookup serves an object that has a live replica of each chunk
exactly when no replica of any of its chunks is recorded on an unregistered node. -/
theorem getObject_serves_iff (lib : External) (hlib : lib.Lawful) (s : MetadataStore)
    (hs : Reachable lib anyEvent s) (index : HashMap UInt64 String) (name : String)
    (object : MetaObject) (hname : s.objects[name]? = some object)
    (hlive : ∀ id ∈ object.chunks, HasLiveReplica s id) :
    (∃ response, (⟨s, index⟩ : StorageMetadataImpl).getObject name = .ok response ∧
        Serves s object response) ↔
      ∀ id ∈ object.chunks, ∀ chunk, s.chunks[id]? = some chunk →
        ∀ nodeId ∈ chunk.storageNodes, nodeId ∈ s.storageNodes := by
  obtain ⟨g, hrun⟩ := hs
  constructor
  · rintro ⟨response, hresponse, _⟩ id hid chunk hchunk
    have hresolvable := ((getObject_eq_ok_iff hname).mp hresponse).1
    obtain ⟨record, hrecord, hnodes⟩ := hresolvable id hid
    obtain rfl : chunk = record := Option.some.inj (hchunk.symm.trans hrecord)
    exact hnodes
  · intro hregistered
    have hresolvable : Resolvable s object.chunks := by
      intro id hid
      obtain ⟨chunk, hchunk, _⟩ := hlive id hid
      exact ⟨chunk, hchunk, hregistered id hid chunk hchunk⟩
    exact ⟨_, (getObject_eq_ok_iff hname).mpr ⟨hresolvable, rfl⟩,
      response_serves (hrun.keyed hlib).1 hlive⟩

/-! ## One of two replicas lost -/

/-- Object `a` with one chunk on the nodes 1 and 2, both registered. -/
def twoReplicas : MetadataStore :=
  (MetadataStore.fresh MetaFiles.empty).afterCalls jsonLib
    [.constructStorageNode [1] "http://node-a:50051",
      .constructStorageNode [2] "http://node-b:50051", .putObject 7 "a",
      .confirmChunk 10 "a" 9 1, .addChunkReplica 10 2]

theorem twoReplicas_reachable : Reachable jsonLib anyEvent twoReplicas :=
  (Reachable.start jsonLib anyEvent).afterCalls (by simp [anyEvent])

/-- With both nodes registered the object is served. -/
theorem getObject_serves_iff_twoReplicas :
    ∃ response, (⟨twoReplicas, ∅⟩ : StorageMetadataImpl).getObject "a" = .ok response ∧
      Serves twoReplicas ⟨"a", 7, [10], 0⟩ response := by
  have hchunk : twoReplicas.chunks[(10 : UInt64)]? = some ⟨10, "a", 9, [1, 2], .confirmed⟩ := by
    decide +kernel
  have hnodes :
      (1 : UInt64) ∈ twoReplicas.storageNodes ∧ (2 : UInt64) ∈ twoReplicas.storageNodes := by
    decide +kernel
  refine (getObject_serves_iff jsonLib jsonLib_lawful _ twoReplicas_reachable ∅ "a"
    ⟨"a", 7, [10], 0⟩
    (by decide +kernel) ?_).mpr ?_
  · intro id hid
    obtain rfl := List.mem_singleton.mp hid
    exact ⟨_, hchunk, 1, by simp, hnodes.1⟩
  · intro id hid chunk hfound
    obtain rfl := List.mem_singleton.mp hid
    obtain rfl := Option.some.inj (hchunk.symm.trans hfound)
    simpa using hnodes

/-- After a health check has removed node 2, the replica on node 1 is left, and the
client-facing lookup fails. -/
theorem getObject_fails_with_replica_left :
    let s := twoReplicas.afterCalls jsonLib [.healthCheck [2]]
    Reachable jsonLib anyEvent s ∧ s.objects["a"]? = some ⟨"a", 7, [10], 0⟩ ∧
      (∀ id ∈ [(10 : UInt64)], HasLiveReplica s id) ∧
      (⟨s, ∅⟩ : StorageMetadataImpl).getObject "a" =
        .error ⟨.internal, "storage node 2 referenced by chunk but not found"⟩ := by
  refine ⟨twoReplicas_reachable.afterCalls (by simp [anyEvent]), by decide +kernel, ?_, ?_⟩
  · intro id hid
    obtain rfl := List.mem_singleton.mp hid
    exact ⟨⟨10, "a", 9, [1, 2], .confirmed⟩, by decide +kernel, 1, by simp, by decide +kernel⟩
  · decide +kernel

end StorageMetadata
end ObjectStore
