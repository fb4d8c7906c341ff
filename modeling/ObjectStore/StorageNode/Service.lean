import ObjectStore.StorageNode.BoundedMap

/-!
# Storage node - The gRPC service

`StorageNodeImpl` in `main.rs`: each handler runs one method of the chunk store on a
blocking thread and translates the kind of an I/O error into a status.  A method that
panics ends its blocking thread, and the handler reports the failed join.

Main definitions:

- `Call`, `handle`: the requests that other services make, on a chunk store.
- `BoundedMap.handle`: the same requests on the map that a chunk store stands for.

Main results:

- Theorem `Represents.handle`: a chunk store answers every request as its map does.
-/

namespace ObjectStore
namespace StorageNode

/-! ## The handlers -/

/-- The requests of `storage_node.proto` that other services make. -/
inductive Call where
  | writeChunk (chunkId : UInt64) (chunkBytes : Bytes)
  | readChunk (chunkId : UInt64)
  | deleteChunk (chunkId : UInt64)
  | getFreeChunks
  | getChunkSize
deriving DecidableEq

/-- The answer of `read_chunk`. -/
structure ReadChunkResponse where
  chunkId : UInt64
  chunkBytes : Bytes
  checksum : UInt32

/-- The size of the chunks that uploads are cut into. -/
structure ChunkSize where
  bytes : Nat
  positive : 0 < bytes
deriving DecidableEq

/-- `get_chunk_size` of the chunk store. -/
def ChunkSize.slotDataSize : ChunkSize := ⟨SLOT_DATA_SIZE, by decide⟩

/-- What a request is answered with when it succeeds. -/
def Call.Response : Call → Type
  | .writeChunk _ _ | .deleteChunk _ => UInt64
  | .readChunk _ => ReadChunkResponse
  | .getFreeChunks => Nat
  | .getChunkSize => ChunkSize

/-- `task join error`, without the text that the runtime adds about the panic. -/
def joinError : Status := ⟨.internal, "task join error"⟩

/-- `write_chunk`. -/
def writeChunk (crc32 : Bytes → UInt32) (store : ChunkStore) (chunkId : UInt64)
    (chunkBytes : Bytes) : Except Status UInt64 × ChunkStore :=
  match store.putChunk crc32 chunkId chunkBytes with
  | (.panicked, store) => (.error joinError, store)
  | (.returned (.ok ()), store) => (.ok chunkId, store)
  | (.returned (.error error), store) =>
      match error.kind with
      | .alreadyExists => (.error ⟨.alreadyExists, "chunk id already exists"⟩, store)
      | .storageFull => (.error ⟨.resourceExhausted, "chunk store is full"⟩, store)
      | _ => (.error ⟨.internal, "failed to write chunk"⟩, store)

/-- `read_chunk`: the checksum is computed again from the data. -/
def readChunk (crc32 : Bytes → UInt32) (store : ChunkStore) (chunkId : UInt64) :
    Except Status ReadChunkResponse × ChunkStore :=
  match store.getChunk crc32 chunkId with
  | (.panicked, store) => (.error joinError, store)
  | (.returned (.ok (chunkBytes, checksum)), store) =>
      (.ok ⟨chunkId, chunkBytes, checksum⟩, store)
  | (.returned (.error error), store) =>
      match error.kind with
      | .notFound => (.error ⟨.notFound, "chunk not found"⟩, store)
      | _ => (.error ⟨.internal, "failed to read chunk"⟩, store)

/-- `delete_chunk`. -/
def deleteChunk (store : ChunkStore) (chunkId : UInt64) : Except Status UInt64 × ChunkStore :=
  match store.deleteChunk chunkId with
  | (.panicked, store) => (.error joinError, store)
  | (.returned (.ok ()), store) => (.ok chunkId, store)
  | (.returned (.error _), store) => (.error ⟨.internal, "failed to delete chunk"⟩, store)

/-- The node handles a request.  The nodes of this repository all have chunks of
`SLOT_DATA_SIZE` bytes. -/
def handle (crc32 : Bytes → UInt32) (chunkSize : ChunkSize) (store : ChunkStore) :
    (call : Call) → Except Status call.Response × ChunkStore
  | .writeChunk chunkId chunkBytes => writeChunk crc32 store chunkId chunkBytes
  | .readChunk chunkId => readChunk crc32 store chunkId
  | .deleteChunk chunkId => deleteChunk store chunkId
  | .getFreeChunks => (.ok store.freeSlots.length, store)
  | .getChunkSize => (.ok chunkSize, store)

/-- The same requests on a bounded map. -/
def BoundedMap.handle (crc32 : Bytes → UInt32) (chunkSize : ChunkSize) (self : BoundedMap) :
    (call : Call) → Except Status call.Response × BoundedMap
  | .writeChunk chunkId chunkBytes =>
      if chunkId ∈ self.live then (.error ⟨.alreadyExists, "chunk id already exists"⟩, self)
      else if h : self.live.size = self.capacity then
        (.error ⟨.resourceExhausted, "chunk store is full"⟩, self)
      else
        (.ok chunkId,
          { self with
            live := self.live.insert chunkId chunkBytes
            bounded := size_insert_le h chunkId chunkBytes })
  | .readChunk chunkId =>
      match self.live[chunkId]? with
      | some chunkBytes => (.ok ⟨chunkId, chunkBytes, crc32 chunkBytes⟩, self)
      | none => (.error ⟨.notFound, "chunk not found"⟩, self)
  | .deleteChunk chunkId => (.ok chunkId, self.delete chunkId)
  | .getFreeChunks => (.ok (self.capacity - self.live.size), self)
  | .getChunkSize => (.ok chunkSize, self)

/-! ## A chunk store and its map -/

/-- The payload fits into a slot. -/
def Call.Fits : Call → Prop
  | .writeChunk _ chunkBytes => chunkBytes.length ≤ SLOT_DATA_SIZE
  | _ => True

variable {crc32 : Bytes → UInt32} {store : ChunkStore} {map : BoundedMap}

theorem Represents.writeChunk (h : Represents crc32 store map) (chunkSize : ChunkSize)
    (chunkId : UInt64) {chunkBytes : Bytes} (hfits : chunkBytes.length ≤ SLOT_DATA_SIZE) :
    let call := Call.writeChunk chunkId chunkBytes
    (handle crc32 chunkSize store call).1 = (map.handle crc32 chunkSize call).1 ∧
      Represents crc32 (handle crc32 chunkSize store call).2
        (map.handle crc32 chunkSize call).2 := by
  intro call
  simp only [call, handle, BoundedMap.handle, StorageNode.writeChunk]
  rcases h.putChunk chunkId hfits with ⟨hreply, hnext⟩
  unfold BoundedMap.put at hreply hnext
  cases hput : store.putChunk crc32 chunkId chunkBytes with
  | mk outcome store' =>
      rw [hput] at hreply hnext
      by_cases htaken : chunkId ∈ map.live
      · simp only [if_pos htaken] at hreply hnext ⊢
        rcases outcome with (error | value) | _
        · have hkind : error.kind = .alreadyExists := by simpa [Outcome.reply] using hreply
          simp only [hkind]
          exact ⟨rfl, hnext⟩
        · cases hreply
        · cases hreply
      · by_cases hfull : map.live.size = map.capacity
        · simp only [if_neg htaken, dif_pos hfull] at hreply hnext ⊢
          rcases outcome with (error | value) | _
          · have hkind : error.kind = .storageFull := by simpa [Outcome.reply] using hreply
            simp only [hkind]
            exact ⟨rfl, hnext⟩
          · cases hreply
          · cases hreply
        · simp only [if_neg htaken, dif_neg hfull] at hreply hnext ⊢
          rcases outcome with (error | value) | _
          · cases hreply
          · exact ⟨rfl, hnext⟩
          · cases hreply

theorem Represents.readChunk (h : Represents crc32 store map) (chunkSize : ChunkSize)
    (chunkId : UInt64) :
    let call := Call.readChunk chunkId
    (handle crc32 chunkSize store call).1 = (map.handle crc32 chunkSize call).1 ∧
      Represents crc32 (handle crc32 chunkSize store call).2
        (map.handle crc32 chunkSize call).2 := by
  intro call
  simp only [call, handle, BoundedMap.handle, StorageNode.readChunk]
  rcases h.getChunk chunkId with ⟨hreply, hnext⟩
  unfold BoundedMap.get at hreply
  cases hget : store.getChunk crc32 chunkId with
  | mk outcome store' =>
      rw [hget] at hreply hnext
      cases hlive : map.live[chunkId]? with
      | none =>
          simp only [hlive] at hreply ⊢
          rcases outcome with (error | value) | _
          · have hkind : error.kind = .notFound := by simpa [Outcome.reply] using hreply
            simp only [hkind]
            exact ⟨rfl, hnext⟩
          · cases hreply
          · cases hreply
      | some data =>
          simp only [hlive] at hreply ⊢
          rcases outcome with (error | ⟨found, checksum⟩) | _
          · cases hreply
          · simp only [Outcome.reply, Reply.chunk.injEq] at hreply
            rcases hreply with ⟨rfl, rfl⟩
            exact ⟨rfl, hnext⟩
          · cases hreply

theorem Represents.handleDelete (h : Represents crc32 store map) (chunkSize : ChunkSize)
    (chunkId : UInt64) :
    let call := Call.deleteChunk chunkId
    (handle crc32 chunkSize store call).1 = (map.handle crc32 chunkSize call).1 ∧
      Represents crc32 (handle crc32 chunkSize store call).2
        (map.handle crc32 chunkSize call).2 := by
  intro call
  simp only [call, handle, BoundedMap.handle, StorageNode.deleteChunk]
  rcases h.deleteChunk chunkId with ⟨hreply, hnext⟩
  cases hdelete : store.deleteChunk chunkId with
  | mk outcome store' =>
      rw [hdelete] at hreply hnext
      rcases outcome with (error | value) | _
      · cases hreply
      · exact ⟨rfl, hnext⟩
      · cases hreply

/-- A chunk store answers every request as its map does, and represents the map that the
request leaves. -/
theorem Represents.handle (h : Represents crc32 store map) (chunkSize : ChunkSize)
    {call : Call} (hfits : call.Fits) :
    (handle crc32 chunkSize store call).1 = (map.handle crc32 chunkSize call).1 ∧
      Represents crc32 (handle crc32 chunkSize store call).2
        (map.handle crc32 chunkSize call).2 := by
  cases call with
  | writeChunk chunkId chunkBytes => exact h.writeChunk chunkSize chunkId hfits
  | readChunk chunkId => exact h.readChunk chunkSize chunkId
  | deleteChunk chunkId => exact h.handleDelete chunkSize chunkId
  | getFreeChunks =>
      have hfree : store.freeSlots.length = map.capacity - map.live.size := by
        have hlength := h.length_freeSlots
        omega
      refine ⟨?_, h⟩
      simp only [StorageNode.handle, BoundedMap.handle, hfree]
  | getChunkSize => exact ⟨rfl, h⟩

end StorageNode
end ObjectStore
