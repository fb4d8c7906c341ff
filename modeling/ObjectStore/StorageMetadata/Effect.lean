import ObjectStore.StorageMetadata.Run

/-!
# Storage metadata - The effect of each call

One inversion lemma per mutating method: either it fails and leaves the store alone, or
it changes the maps in the one way the lemma names and saves.  Proofs about particular
calls rest on these and do not unfold the methods again.

Main results:

- Theorem `save_ok_iff`: a `save` returns `Ok` exactly when its file steps complete.
- Theorems `putObject_effect`, `deleteObject_effect`, `allocateChunk_effect`,
  `confirmChunk_effect`, `deleteChunk_effect`, `addChunkReplica_effect`,
  `updateObjectChecksum_effect`, `putChunk_effect`.
-/

namespace ObjectStore
namespace StorageMetadata

/-- The object without one of its chunks. -/
def MetaObject.removeChunk (object : MetaObject) (id : UInt64) : MetaObject :=
  { object with chunks := object.chunks.filter (· ≠ id) }

namespace MetadataStore

/-! ## What the calls make of the store -/

/-- The store with another record of the object. -/
def withObject (s : MetadataStore) (name : String) (object : MetaObject) : MetadataStore :=
  { s with objects := s.objects.insert name object }

/-- The store with another record of the chunk. -/
def withChunk (s : MetadataStore) (id : UInt64) (chunk : MetaChunk) : MetadataStore :=
  { s with chunks := s.chunks.insert id chunk }

/-- The object is gone, and so are the chunks it lists. -/
def withoutObject (s : MetadataStore) (name : String) (object : MetaObject) : MetadataStore :=
  { s with
    objects := s.objects.erase name
    chunks := object.chunks.foldl (·.erase ·) s.chunks }

/-- The store without the record of the chunk. -/
def withoutChunk (s : MetadataStore) (id : UInt64) : MetadataStore :=
  { s with chunks := s.chunks.erase id }

/-- A confirmed chunk with one replica has joined the end of the object. -/
def withAttached (s : MetadataStore) (id : UInt64) (name : String) (object : MetaObject)
    (checksum : UInt32) (nodeId : UInt64) : MetadataStore :=
  (s.withChunk id ((MetaChunk.new id checksum name).addStorageNode nodeId)).withObject name
    (object.addChunk id)

variable {lib : External} {io : SaveIo} {s : MetadataStore}

/-- A save succeeds when it completes. -/
theorem save_ok_iff : (s.save lib io).1 = .ok () ↔ io = .completes := by
  unfold save
  split <;> simp

/-! ## Inversion -/

/-- `put_object` refuses a used name, or adds an object and saves. -/
theorem putObject_effect (lib : External) (io : SaveIo) (s : MetadataStore)
    (checksum : UInt32) (name : String) :
    (∃ object, s.objects[name]? = some object ∧ s.putObject lib io checksum name =
        (.error ⟨.alreadyExists, s!"object name {name} already exists"⟩, s)) ∨
      s.objects[name]? = none ∧ s.putObject lib io checksum name =
        (s.withObject name (.new name checksum)).save lib io := by
  cases hname : s.objects[name]? with
  | some object =>
      have hmem : name ∈ s.objects := HashMap.mem_iff_exists_getElem?.mpr ⟨object, hname⟩
      exact .inl ⟨object, rfl, by simp [putObject, hmem]⟩
  | none =>
      have hmem : name ∉ s.objects := by simpa using hname
      exact .inr ⟨rfl, by simp [putObject, hmem, withObject]⟩

/-- `delete_object` does not find the object, or drops it with its chunks and saves. -/
theorem deleteObject_effect (lib : External) (io : SaveIo) (s : MetadataStore) (name : String) :
    s.objects[name]? = none ∧
        s.deleteObject lib io name = (.error ⟨.notFound, "object not found"⟩, s) ∨
      ∃ object, s.objects[name]? = some object ∧
        s.deleteObject lib io name = (s.withoutObject name object).save lib io := by
  cases hname : s.objects[name]? with
  | none => exact .inl ⟨rfl, by simp only [deleteObject, hname]⟩
  | some object => exact .inr ⟨object, rfl, by simp [deleteObject, hname, withoutObject]⟩

/-- `update_object_checksum` does not find the object, or sets its fields and saves. -/
theorem updateObjectChecksum_effect (lib : External) (io : SaveIo) (s : MetadataStore)
    (name : String) (checksum : UInt32) (totalSize : UInt64) :
    s.objects[name]? = none ∧ s.updateObjectChecksum lib io name checksum totalSize =
        (.error ⟨.notFound, "object not found"⟩, s) ∨
      ∃ object, s.objects[name]? = some object ∧
        s.updateObjectChecksum lib io name checksum totalSize =
          (s.withObject name
            { object with checksum := checksum, totalSize := totalSize }).save lib io := by
  cases hname : s.objects[name]? with
  | none => exact .inl ⟨rfl, by simp only [updateObjectChecksum, hname]⟩
  | some object => exact .inr ⟨object, rfl, by simp [updateObjectChecksum, hname, withObject]⟩

/-- A call that returns has drawn an id that no record has. -/
theorem putChunk_effect {draws : List UInt64} {pick : Nat} {name : String} {checksum : UInt32}
    {result : IoResult (UInt64 × String) × MetadataStore}
    (h : s.putChunk lib io draws pick name checksum = some result) :
    (s.chooseStorageNode pick = none ∧
        result = (.error ⟨.hostUnreachable, "no available storage node"⟩, s)) ∨
      ∃ id node, generateUniqueId draws s.chunks = some id ∧
        s.chooseStorageNode pick = some node ∧
        (s.objects[name]? = none ∧ result = (.error ⟨.notFound, "object not found"⟩,
            s.withChunk id ((MetaChunk.new id checksum name).addStorageNode node.id)) ∨
          ∃ object, s.objects[name]? = some object ∧
            result = (s.withAttached id name object checksum node.id).saveThen lib io
              (id, node.address)) := by
  simp only [putChunk, Option.map_eq_some_iff] at h
  rcases h with ⟨id, hid, rfl⟩
  cases hnode : s.chooseStorageNode pick with
  | none => exact .inl ⟨rfl, rfl⟩
  | some node =>
      refine .inr ⟨id, node, hid, rfl, ?_⟩
      cases hname : s.objects[name]? with
      | none => exact .inl ⟨rfl, rfl⟩
      | some object => exact .inr ⟨object, rfl, rfl⟩

/-- `allocate_chunk` fails, or records a pending chunk. -/
theorem allocateChunk_effect {draws : List UInt64} {pick : Nat} {name : String}
    {result : IoResult (UInt64 × UInt64 × String) × MetadataStore}
    (h : s.allocateChunk draws pick name = some result) :
    (s.chooseStorageNode pick = none ∧
        result = (.error ⟨.hostUnreachable, "no available storage node"⟩, s)) ∨
      ∃ id node, generateUniqueId draws s.chunks = some id ∧
        s.chooseStorageNode pick = some node ∧
        result = (.ok (id, node.id, node.address), s.withChunk id (.newPending id name)) := by
  simp only [allocateChunk, Option.map_eq_some_iff] at h
  rcases h with ⟨id, hid, rfl⟩
  cases hnode : s.chooseStorageNode pick with
  | none => exact .inl ⟨rfl, rfl⟩
  | some node => exact .inr ⟨id, node, hid, rfl, rfl⟩

/-- `confirm_chunk` is refused, or attaches the chunk and saves. -/
theorem confirmChunk_effect (lib : External) (io : SaveIo) (s : MetadataStore) (id : UInt64)
    (name : String) (checksum : UInt32) (nodeId : UInt64) :
    (∃ error, s.confirmChunk lib io id name checksum nodeId = (.error error, s)) ∨
      ∃ object, s.objects[name]? = some object ∧ nodeId ∈ s.storageNodes ∧
        (∀ chunk, s.chunks[id]? = some chunk → chunk.status = .pending) ∧
        s.confirmChunk lib io id name checksum nodeId =
          (s.withAttached id name object checksum nodeId).save lib io := by
  by_cases hnode : nodeId ∈ s.storageNodes
  · by_cases hconfirmed : (s.chunks[id]?).any (·.status = .confirmed) = true
    · refine .inl ⟨⟨.alreadyExists, s!"chunk {id} already confirmed"⟩, ?_⟩
      simp [confirmChunk, hnode, hconfirmed]
    · cases hname : s.objects[name]? with
      | none =>
          refine .inl ⟨⟨.notFound, "object not found"⟩, ?_⟩
          simp [confirmChunk, hnode, hconfirmed, hname]
      | some object =>
          refine .inr ⟨object, rfl, hnode, ?_, ?_⟩
          · intro chunk hchunk
            cases hstatus : chunk.status with
            | pending => rfl
            | confirmed => simp [hchunk, hstatus] at hconfirmed
          · simp [confirmChunk, hnode, hconfirmed, hname, withAttached, withChunk, withObject]
  · refine .inl ⟨⟨.notFound, s!"storage node {nodeId} not found"⟩, ?_⟩
    simp [confirmChunk, hnode]

/-- `delete_chunk` does not find the chunk, or drops it and saves. -/
theorem deleteChunk_effect (lib : External) (io : SaveIo) (s : MetadataStore) (id : UInt64) :
    s.chunks[id]? = none ∧ s.deleteChunk lib io id =
        (.error ⟨.notFound, "could not find mapped object"⟩, s) ∨
      ∃ chunk, s.chunks[id]? = some chunk ∧
        (s.objects[chunk.objectName]? = none ∧
            s.deleteChunk lib io id = (.error ⟨.notFound, "object not found"⟩, s.withoutChunk id) ∨
          ∃ object, s.objects[chunk.objectName]? = some object ∧
            s.deleteChunk lib io id =
              ((s.withoutChunk id).withObject chunk.objectName
                (object.removeChunk id)).save lib io) := by
  cases hid : s.chunks[id]? with
  | none => exact .inl ⟨rfl, by simp only [deleteChunk, hid]⟩
  | some chunk =>
      refine .inr ⟨chunk, rfl, ?_⟩
      cases hname : s.objects[chunk.objectName]? with
      | none => exact .inl ⟨rfl, by simp only [deleteChunk, hid, hname, withoutChunk]⟩
      | some object =>
          refine .inr ⟨object, rfl, ?_⟩
          simp [deleteChunk, hid, hname, withoutChunk, withObject, MetaObject.removeChunk]

/-- `add_chunk_replica` is refused, or adds the replica and saves. -/
theorem addChunkReplica_effect (lib : External) (io : SaveIo) (s : MetadataStore)
    (id nodeId : UInt64) :
    (∃ error, s.addChunkReplica lib io id nodeId = (.error error, s)) ∨
      ∃ chunk, s.chunks[id]? = some chunk ∧ nodeId ∈ s.storageNodes ∧
        nodeId ∉ chunk.storageNodes ∧ chunk.storageNodes.length < MAX_REPLICAS ∧
        s.addChunkReplica lib io id nodeId =
          (s.withChunk id (chunk.addStorageNode nodeId)).save lib io := by
  by_cases hnode : nodeId ∈ s.storageNodes
  · cases hid : s.chunks[id]? with
    | none =>
        refine .inl ⟨⟨.notFound, "chunk not found"⟩, ?_⟩
        simp [addChunkReplica, hnode, hid]
    | some chunk =>
        by_cases hhost : nodeId ∈ chunk.storageNodes
        · refine .inl ⟨⟨.alreadyExists,
            s!"chunk {id} already exists on storage node {nodeId}"⟩, ?_⟩
          simp [addChunkReplica, hnode, hid, hhost]
        · by_cases hroom : chunk.storageNodes.length < MAX_REPLICAS
          · refine .inr ⟨chunk, rfl, hnode, hhost, hroom, ?_⟩
            have hfull : ¬ MAX_REPLICAS ≤ chunk.storageNodes.length := by omega
            simp [addChunkReplica, hnode, hid, hhost, hfull, withChunk]
          · refine .inl ⟨⟨.invalidInput,
              s!"chunk {id} already has {chunk.storageNodes.length} replicas " ++
                s!"(max: {MAX_REPLICAS})"⟩, ?_⟩
            have hfull : MAX_REPLICAS ≤ chunk.storageNodes.length := by omega
            simp [addChunkReplica, hnode, hid, hhost, hfull]
  · refine .inl ⟨⟨.notFound, s!"storage node {nodeId} not found"⟩, ?_⟩
    simp [addChunkReplica, hnode]

end MetadataStore
end StorageMetadata
end ObjectStore
