import ObjectStore.Library.Xxh3
import ObjectStore.StorageMetadata.HashRing
import ObjectStore.StorageMetadata.View

/-!
# Storage metadata - Handing a partition over

`transfer_partition` in `cluster_service.rs` streams the objects whose names hash into
the requested ranges, each followed by its chunks; `pull_partition` in `migration.rs`
collects the stream and ingests it.  The wire format drops two fields, and the receiver
fills them in with constants.

Main results:

- Theorem `receive_transferPartition`: what the receiver collects from the sender.
- Theorem `records_preserved_iff`: exactly when every record survives the transfer.
- Theorem `pull_keeps_integrity`: referential integrity of the receiver.
-/

namespace ObjectStore
namespace StorageMetadata

/-! ## The stream -/

namespace Proto

/-- An object as it is sent to a joining node. -/
structure TransferObject where
  name : String
  checksum : UInt32
  chunkIds : List UInt64

/-- A chunk as it is sent to a joining node. -/
structure TransferChunk where
  id : UInt64
  objectName : String
  checksum : UInt32
  storageNodeIds : List UInt64

/-- The `oneof` of a `TransferPartitionEntry`. -/
inductive Entry where
  | object (object : TransferObject)
  | chunk (chunk : TransferChunk)

/-- One message of the stream of `transfer_partition`. -/
structure TransferPartitionEntry where
  entry : Option Entry

end Proto

open Proto (TransferPartitionEntry)

/-- The message for an object. -/
def objectEntry (object : MetaObject) : TransferPartitionEntry where
  entry := some (.object
    { name := object.name
      checksum := object.checksum
      chunkIds := object.chunks })

/-- The message for a chunk. -/
def chunkEntry (chunk : MetaChunk) : TransferPartitionEntry where
  entry := some (.chunk
    { id := chunk.id
      objectName := chunk.objectName
      checksum := chunk.checksum
      storageNodeIds := chunk.storageNodes })

/-- `transfer_partition`: the entries its task sends. -/
def MetadataStore.transferPartition (hash : String → UInt64) (self : MetadataStore)
    (ranges : List (UInt64 × UInt64)) : List TransferPartitionEntry :=
  (self.objectsInHashRanges hash ranges).flatMap fun (object, chunks) =>
    objectEntry object :: chunks.map chunkEntry

/-- The vectors `pull_partition` fills. -/
structure Received where
  objects : List MetaObject
  chunks : List MetaChunk
  chunkIndexEntries : List (UInt64 × String)

/-- Before the first message. -/
def Received.empty : Received := ⟨[], [], []⟩

/-- One round of the receiving loop. -/
def Received.push (received : Received) (entry : TransferPartitionEntry) : Received :=
  match entry.entry with
  | some (.object object) =>
      { received with
        objects := received.objects ++
          [{ name := object.name
             checksum := object.checksum
             chunks := object.chunkIds
             totalSize := 0 }] }
  | some (.chunk chunk) =>
      { received with
        chunks := received.chunks ++
          [{ id := chunk.id
             objectName := chunk.objectName
             checksum := chunk.checksum
             storageNodes := chunk.storageNodeIds
             status := .confirmed }]
        chunkIndexEntries := received.chunkIndexEntries ++ [(chunk.id, chunk.objectName)] }
  | none => received

/-- `while let Some(entry) = stream.message().await?`. -/
def receive (received : Received) :
    List (Except Status TransferPartitionEntry) → Except Status Received
  | [] => .ok received
  | .error status :: _ => .error status
  | .ok entry :: stream => receive (received.push entry) stream

/-- The errors that `pull_partition` boxes. -/
inductive PullError where
  | connect (message : String)
  | rpc (status : Status)
  | ingest (error : IoError)

/-- `ChunkIndex::bulk_insert`. -/
def bulkInsert (chunkIndex : HashMap UInt64 String) (entries : List (UInt64 × String)) :
    HashMap UInt64 String :=
  entries.foldl (fun index (chunkId, objectName) => index.insert chunkId objectName) chunkIndex

/-- What the peer does with the request: the connection fails, the call fails, or it
answers with a stream. -/
abbrev PeerAnswer :=
  Except String (Except Status (List (Except Status TransferPartitionEntry)))

/-- `pull_partition`, up to the broadcast of `chunk_index_entries` to the other peers. -/
def StorageMetadataImpl.pullPartition (lib : External) (io : SaveIo)
    (self : StorageMetadataImpl) (peer : PeerAnswer) :
    Except PullError Unit × StorageMetadataImpl :=
  match peer with
  | .error message => (.error (.connect message), self)
  | .ok (.error status) => (.error (.rpc status), self)
  | .ok (.ok stream) =>
      match receive Received.empty stream with
      | .error status => (.error (.rpc status), self)
      | .ok received =>
          if received.objects.isEmpty && received.chunks.isEmpty then (.ok (), self)
          else
            match self.metadataStore.ingestPartition lib io received.objects received.chunks with
            | (.error error, store) => (.error (.ingest error), self.withStore store)
            | (.ok (), store) =>
                (.ok (),
                  { metadataStore := store
                    chunkIndex := bulkInsert self.chunkIndex received.chunkIndexEntries })

/-! ## What arrives -/

/-- An object after the transfer. -/
def MetaObject.transferred (object : MetaObject) : MetaObject :=
  { object with totalSize := 0 }

/-- A chunk after the transfer. -/
def MetaChunk.transferred (chunk : MetaChunk) : MetaChunk :=
  { chunk with status := .confirmed }

/-- The receiver's vectors once more objects have arrived with their chunks. -/
def Received.extend (received : Received) (batch : List (MetaObject × List MetaChunk)) :
    Received where
  objects := received.objects ++ batch.map fun entry => entry.1.transferred
  chunks := received.chunks ++ (batch.flatMap Prod.snd).map MetaChunk.transferred
  chunkIndexEntries := received.chunkIndexEntries ++
    (batch.flatMap Prod.snd).map fun chunk => (chunk.id, chunk.objectName)

theorem receive_map_ok (received : Received) (entries : List TransferPartitionEntry) :
    receive received (entries.map .ok) = .ok (entries.foldl Received.push received) := by
  induction entries generalizing received with
  | nil => rfl
  | cons entry entries ih => exact ih (received.push entry)

theorem foldl_push_chunks (received : Received) (chunks : List MetaChunk) :
    (chunks.map chunkEntry).foldl Received.push received =
      { received with
        chunks := received.chunks ++ chunks.map MetaChunk.transferred
        chunkIndexEntries := received.chunkIndexEntries ++
          chunks.map fun chunk => (chunk.id, chunk.objectName) } := by
  induction chunks generalizing received with
  | nil => simp
  | cons chunk chunks ih =>
      rw [List.map_cons, List.foldl_cons, ih]
      simp [Received.push, chunkEntry, MetaChunk.transferred]

theorem foldl_push_batch (received : Received) (batch : List (MetaObject × List MetaChunk)) :
    (batch.flatMap fun (object, chunks) =>
        objectEntry object :: chunks.map chunkEntry).foldl Received.push received =
      received.extend batch := by
  induction batch generalizing received with
  | nil => simp [Received.extend]
  | cons first batch ih =>
      rw [List.flatMap_cons, List.foldl_append, ih, List.foldl_cons, foldl_push_chunks]
      simp [Received.push, Received.extend, objectEntry, MetaObject.transferred]

/-- The receiver collects the objects and chunks in the order they were sent. -/
theorem receive_transferPartition (hash : String → UInt64) (source : MetadataStore)
    (ranges : List (UInt64 × UInt64)) :
    receive Received.empty ((source.transferPartition hash ranges).map .ok) =
      .ok (Received.empty.extend (source.objectsInHashRanges hash ranges)) := by
  rw [receive_map_ok, MetadataStore.transferPartition, foldl_push_batch]

/-! ## What the receiver stores -/

/-- The source stores `object` under `name`, and the name hashes into the ranges. -/
def Sent (hash : String → UInt64) (ranges : List (UInt64 × UInt64)) (source : MetadataStore)
    (name : String) (object : MetaObject) : Prop :=
  source.objects[name]? = some object ∧
    HashRing.hashInRanges (HashRing.hashKey hash name) ranges = true

/-- Some object that is sent lists `id`. -/
def SentChunk (hash : String → UInt64) (ranges : List (UInt64 × UInt64))
    (source : MetadataStore) (id : UInt64) : Prop :=
  ∃ name object, Sent hash ranges source name object ∧ id ∈ object.chunks

/-- Referential integrity of maps that keep every record under its own name or id. -/
structure WellReferenced (g : Maps) : Prop extends Integrity g, Keyed g

/-- The receiver once it has ingested all that the source sends. -/
def MetadataStore.takeOver (hash : String → UInt64) (ranges : List (UInt64 × UInt64))
    (source dest : MetadataStore) : MetadataStore :=
  let batch := source.objectsInHashRanges hash ranges
  dest.ingest (batch.map fun entry => entry.1.transferred)
    ((batch.flatMap Prod.snd).map MetaChunk.transferred)

variable {hash : String → UInt64} {ranges : List (UInt64 × UInt64)}
  {source dest : MetadataStore}

/-- The receiver saves what it takes over, unless there was nothing to ingest. -/
theorem pullPartition_store (lib : External) (io : SaveIo) (hash : String → UInt64)
    (ranges : List (UInt64 × UInt64)) (source : MetadataStore) (node : StorageMetadataImpl) :
    let store := (node.pullPartition lib io
      (.ok (.ok ((source.transferPartition hash ranges).map .ok)))).2.metadataStore
    store = node.metadataStore ∧
        source.takeOver hash ranges node.metadataStore = node.metadataStore ∨
      store = ((source.takeOver hash ranges node.metadataStore).save lib io).2 := by
  simp only [StorageMetadataImpl.pullPartition, receive_transferPartition]
  split
  · rename_i hempty
    simp only [Received.extend, Received.empty, List.nil_append, Bool.and_eq_true,
      List.isEmpty_iff] at hempty
    refine .inl ⟨rfl, ?_⟩
    simp only [MetadataStore.takeOver, hempty, MetadataStore.ingest, List.foldl_nil]
  · right
    simp only [MetadataStore.ingestPartition, saveThen_unit, Received.extend, Received.empty,
      List.nil_append]
    split <;> rename_i hsave <;> rw [MetadataStore.takeOver, hsave]
    rfl

/-- Whatever the `save` does, memory holds what was taken over. -/
theorem pullPartition_maps (lib : External) (io : SaveIo) (hash : String → UInt64)
    (ranges : List (UInt64 × UInt64)) (source : MetadataStore) (node : StorageMetadataImpl) :
    (node.pullPartition lib io
        (.ok (.ok ((source.transferPartition hash ranges).map .ok)))).2.metadataStore.maps =
      (source.takeOver hash ranges node.metadataStore).maps := by
  rcases pullPartition_store lib io hash ranges source node with ⟨hstore, hnothing⟩ | hstore
  · rw [hstore, hnothing]
  · rw [hstore, save_maps]

theorem mem_batch (hkeyed : Keyed source.maps) {object : MetaObject} {chunks : List MetaChunk} :
    (object, chunks) ∈ source.objectsInHashRanges hash ranges ↔
      Sent hash ranges source object.name object ∧
        chunks = object.chunks.filterMap fun id => source.chunks[id]? := by
  simp only [MetadataStore.objectsInHashRanges, List.mem_map, List.mem_filter,
    HashMap.mem_valueList, Prod.mk.injEq]
  constructor
  · rintro ⟨found, ⟨⟨name, hname⟩, hhit⟩, rfl, rfl⟩
    have hkey : found.name = name := hkeyed.object hname
    exact ⟨⟨by rw [hkey]; exact hname, hhit⟩, rfl⟩
  · rintro ⟨⟨hname, hhit⟩, rfl⟩
    exact ⟨object, ⟨⟨_, hname⟩, hhit⟩, rfl, rfl⟩

theorem mem_sentChunks (hkeyed : Keyed source.maps) {chunk : MetaChunk} :
    chunk ∈ (source.objectsInHashRanges hash ranges).flatMap Prod.snd ↔
      SentChunk hash ranges source chunk.id ∧ source.chunks[chunk.id]? = some chunk := by
  simp only [List.mem_flatMap, Prod.exists, mem_batch hkeyed]
  constructor
  · rintro ⟨object, _, ⟨hsent, rfl⟩, hmem⟩
    rcases List.mem_filterMap.mp hmem with ⟨id, hid, hchunk⟩
    have hkey : chunk.id = id := hkeyed.chunk hchunk
    rw [hkey]
    exact ⟨⟨_, object, hsent, hid⟩, hchunk⟩
  · rintro ⟨⟨name, object, hsent, hid⟩, hchunk⟩
    have hkey : object.name = name := hkeyed.object hsent.1
    exact ⟨object, _, ⟨by rw [hkey]; exact hsent, rfl⟩, List.mem_filterMap.mpr ⟨_, hid, hchunk⟩⟩

/-- An object that is sent arrives without its size. -/
theorem takeOver_object_of_sent (hkeyed : Keyed source.maps) {name : String}
    {object : MetaObject} (hsent : Sent hash ranges source name object) :
    (source.takeOver hash ranges dest).objects[name]? = some object.transferred := by
  have hkey : object.name = name := hkeyed.object hsent.1
  have hlist : object.transferred ∈
      (source.objectsInHashRanges hash ranges).map fun entry => entry.1.transferred :=
    List.mem_map.mpr ⟨(object, _), (mem_batch hkeyed).mpr ⟨by rw [hkey]; exact hsent, rfl⟩, rfl⟩
  rcases HashMap.getElem?_foldl_insert MetaObject.name (fun object => object)
      ((source.objectsInHashRanges hash ranges).map fun entry => entry.1.transferred)
      dest.objects name with ⟨found, hfound, hname, hlookup⟩ | ⟨hnone, _⟩
  · rcases List.mem_map.mp hfound with ⟨⟨sent, chunks⟩, hmem, rfl⟩
    have hsame := ((mem_batch hkeyed).mp hmem).1.1
    have hsentName : sent.name = name := hname
    rw [hsentName, hsent.1] at hsame
    rw [Option.some.inj hsame]
    exact hlookup
  · exact (hnone _ hlist hkey).elim

theorem takeOver_object_of_not_sent (hkeyed : Keyed source.maps) {name : String}
    (hsent : ∀ object, ¬ Sent hash ranges source name object) :
    (source.takeOver hash ranges dest).objects[name]? = dest.objects[name]? := by
  rcases HashMap.getElem?_foldl_insert MetaObject.name (fun object => object)
      ((source.objectsInHashRanges hash ranges).map fun entry => entry.1.transferred)
      dest.objects name with ⟨found, hfound, hname, _⟩ | ⟨_, hlookup⟩
  · rcases List.mem_map.mp hfound with ⟨⟨sent, chunks⟩, hmem, rfl⟩
    have hsentName : sent.name = name := hname
    exact absurd (hsentName ▸ ((mem_batch hkeyed).mp hmem).1) (hsent sent)
  · exact hlookup

/-- A chunk that is sent arrives as a `Confirmed` one. -/
theorem takeOver_chunk_of_sent (hkeyed : Keyed source.maps) {id : UInt64} {chunk : MetaChunk}
    (hsent : SentChunk hash ranges source id) (hchunk : source.chunks[id]? = some chunk) :
    (source.takeOver hash ranges dest).chunks[id]? = some chunk.transferred := by
  have hkey : chunk.id = id := hkeyed.chunk hchunk
  have hlist : chunk.transferred ∈
      ((source.objectsInHashRanges hash ranges).flatMap Prod.snd).map MetaChunk.transferred :=
    List.mem_map.mpr ⟨chunk, (mem_sentChunks hkeyed).mpr (by rw [hkey]; exact ⟨hsent, hchunk⟩), rfl⟩
  rcases HashMap.getElem?_foldl_insert MetaChunk.id (fun chunk => chunk)
      (((source.objectsInHashRanges hash ranges).flatMap Prod.snd).map MetaChunk.transferred)
      dest.chunks id with ⟨found, hfound, hid, hlookup⟩ | ⟨hnone, _⟩
  · rcases List.mem_map.mp hfound with ⟨sent, hmem, rfl⟩
    have hsame := ((mem_sentChunks hkeyed).mp hmem).2
    have hsentId : sent.id = id := hid
    rw [hsentId, hchunk] at hsame
    rw [Option.some.inj hsame]
    exact hlookup
  · exact (hnone _ hlist hkey).elim

theorem takeOver_chunk_of_not_sent (hkeyed : Keyed source.maps) {id : UInt64}
    (hsent : ¬ SentChunk hash ranges source id) :
    (source.takeOver hash ranges dest).chunks[id]? = dest.chunks[id]? := by
  rcases HashMap.getElem?_foldl_insert MetaChunk.id (fun chunk => chunk)
      (((source.objectsInHashRanges hash ranges).flatMap Prod.snd).map MetaChunk.transferred)
      dest.chunks id with ⟨found, hfound, hid, _⟩ | ⟨_, hlookup⟩
  · rcases List.mem_map.mp hfound with ⟨sent, hmem, rfl⟩
    have hsentId : sent.id = id := hid
    exact absurd (hsentId ▸ ((mem_sentChunks hkeyed).mp hmem).1) hsent
  · exact hlookup

/-! ## Records -/

/-- Every record that is sent is at the receiver as it is at the source, and the receiver
has nothing else of the source. -/
structure PreservesRecords (hash : String → UInt64) (ranges : List (UInt64 × UInt64))
    (source dest after : MetadataStore) : Prop where
  object : ∀ (name : String) (object : MetaObject), Sent hash ranges source name object →
    after.objects[name]? = some object
  chunk : ∀ id : UInt64, SentChunk hash ranges source id →
    ∃ chunk, source.chunks[id]? = some chunk ∧ after.chunks[id]? = some chunk
  otherObjects : ∀ name : String, (∀ object, ¬ Sent hash ranges source name object) →
    after.objects[name]? = dest.objects[name]?
  otherChunks : ∀ id : UInt64, ¬ SentChunk hash ranges source id →
    after.chunks[id]? = dest.chunks[id]?

theorem MetaObject.transferred_eq_iff (object : MetaObject) :
    object.transferred = object ↔ object.totalSize = 0 := by
  cases object
  simp [MetaObject.transferred, eq_comm]

theorem MetaChunk.transferred_eq {chunk : MetaChunk} (h : chunk.status = .confirmed) :
    chunk.transferred = chunk := by
  cases chunk
  simp_all [MetaChunk.transferred]

/-- A chunk that is sent has a record, which is `Confirmed`. -/
theorem Integrity.sentChunk (h : Integrity source.maps) {id : UInt64}
    (hsent : SentChunk hash ranges source id) :
    ∃ chunk, source.chunks[id]? = some chunk ∧ chunk.status = .confirmed := by
  rcases hsent with ⟨name, object, hsent, hid⟩
  rcases h.confirms hsent.1 hid with ⟨chunk, hchunk, hstatus, _⟩
  exact ⟨chunk, hchunk, hstatus⟩

/-- Migration preserves every record exactly when no object that is sent has a recorded
size: the wire format has no field for `total_size`, and the receiver writes 0.  All the
other fields survive, and nothing else of the source arrives. -/
theorem records_preserved_iff (lib : External) (io : SaveIo) (hash : String → UInt64)
    (ranges : List (UInt64 × UInt64)) (source : MetadataStore) (node : StorageMetadataImpl)
    (hsource : WellReferenced source.maps) :
    PreservesRecords hash ranges source node.metadataStore
        (node.pullPartition lib io
          (.ok (.ok ((source.transferPartition hash ranges).map .ok)))).2.metadataStore ↔
      ∀ (name : String) (object : MetaObject), Sent hash ranges source name object →
        object.totalSize = 0 := by
  have hkeyed := hsource.toKeyed
  have hmaps := pullPartition_maps lib io hash ranges source node
  have hobjects := congrArg Maps.objects hmaps
  have hchunks := congrArg Maps.chunks hmaps
  simp only [MetadataStore.maps] at hobjects hchunks
  constructor
  · intro h name object hsent
    have hkept := h.object name object hsent
    rw [hobjects, takeOver_object_of_sent hkeyed hsent] at hkept
    exact object.transferred_eq_iff.mp (Option.some.inj hkept)
  · intro hsize
    constructor
    · intro name object hsent
      have hsame := object.transferred_eq_iff.mpr (hsize name object hsent)
      rw [hobjects, takeOver_object_of_sent hkeyed hsent, hsame]
    · intro id hsent
      rcases hsource.toIntegrity.sentChunk hsent with ⟨chunk, hchunk, hstatus⟩
      refine ⟨chunk, hchunk, ?_⟩
      rw [hchunks, takeOver_chunk_of_sent hkeyed hsent hchunk, chunk.transferred_eq hstatus]
    · intro name hsent
      rw [hobjects, takeOver_object_of_not_sent hkeyed hsent]
    · intro id hsent
      rw [hchunks, takeOver_chunk_of_not_sent hkeyed hsent]

/-- Two uploads of one chunk each.  The streaming one has recorded the object's size. -/
def uploaded : MetadataStore :=
  (MetadataStore.fresh MetaFiles.empty).afterCalls jsonLib
    [.constructStorageNode [1] "http://node-a:50051", .putObject 7 "a",
      .allocateChunk [10] 0 "a", .confirmChunk 10 "a" 7 1, .putObject 9 "s",
      .allocateChunk [20] 0 "s", .confirmChunk 20 "s" 9 1, .updateObjectChecksum "s" 9 5]

theorem uploaded_wellReferenced : WellReferenced uploaded.maps := by
  have hreachable : Reachable jsonLib localEvent uploaded := by
    refine (Reachable.start jsonLib localEvent).afterCalls ?_
    simp [localEvent, Op.FromPeer]
  rcases hreachable with ⟨g, hrun⟩
  exact ⟨(hrun.integrity jsonLib_lawful).1, (hrun.keyed jsonLib_lawful).1⟩

/-- A node that has just been started for the first time. -/
def freshNode : StorageMetadataImpl := ⟨MetadataStore.fresh MetaFiles.empty, ∅⟩

/-- Everything but the hash of `s` is requested. -/
theorem records_preserved_iff_uploaded :
    let ranges := [(Library.xxh3 "s" + 1, Library.xxh3 "s")]
    PreservesRecords Library.xxh3 ranges uploaded freshNode.metadataStore
      (freshNode.pullPartition jsonLib .completes
        (.ok (.ok
          ((uploaded.transferPartition Library.xxh3 ranges).map .ok)))).2.metadataStore := by
  intro ranges
  refine (records_preserved_iff jsonLib .completes Library.xxh3 ranges uploaded freshNode
    uploaded_wellReferenced).mpr ?_
  intro name object hsent
  have hall : ∀ entry ∈ uploaded.objectsInHashRanges Library.xxh3 ranges,
      entry.1.totalSize = 0 := by decide +kernel
  have hkeyed := uploaded_wellReferenced.toKeyed
  have hkey : object.name = name := hkeyed.object hsent.1
  exact hall (object, _) ((mem_batch hkeyed).mpr ⟨by rw [hkey]; exact hsent, rfl⟩)

/-- The size of a streaming upload does not survive its migration. -/
theorem recorded_size_lost :
    let ranges := [(Library.xxh3 "s", Library.xxh3 "s" + 1)]
    ¬ PreservesRecords Library.xxh3 ranges uploaded freshNode.metadataStore
      (freshNode.pullPartition jsonLib .completes
        (.ok (.ok
          ((uploaded.transferPartition Library.xxh3 ranges).map .ok)))).2.metadataStore := by
  intro ranges h
  have hsent : Sent Library.xxh3 ranges uploaded "s" ⟨"s", 9, [20], 5⟩ := by
    constructor <;> decide +kernel
  have hkept := h.object "s" _ hsent
  revert hkept
  decide +kernel

/-! ## Referential integrity -/

/-- No id names one object at the source and another one at the receiver. -/
def IdsAgree (source dest : MetadataStore) : Prop :=
  ∀ (id : UInt64) (chunk chunk' : MetaChunk), source.chunks[id]? = some chunk →
    dest.chunks[id]? = some chunk' → chunk.objectName = chunk'.objectName

/-- The two stores never list a chunk under different names. -/
def ListsAgree (source dest : MetadataStore) : Prop :=
  ∀ (id : UInt64) (name name' : String), source.maps.Lists id name → dest.maps.Lists id name' →
    name = name'

theorem IdsAgree.lists (h : IdsAgree source dest) (hsource : Integrity source.maps)
    (hdest : Integrity dest.maps) : ListsAgree source dest := by
  intro id name name' hid hid'
  rcases hsource.record hid with ⟨chunk, hchunk, _, rfl⟩
  rcases hdest.record hid' with ⟨chunk', hchunk', _, rfl⟩
  exact h id chunk chunk' hchunk hchunk'

theorem SentChunk.exists_lists {id : UInt64} (h : SentChunk hash ranges source id) :
    ∃ name object, Sent hash ranges source name object ∧ source.maps.Lists id name := by
  rcases h with ⟨name, object, hsent, hid⟩
  exact ⟨name, object, hsent, object, hsent.1, hid⟩

/-- A chunk that is sent is listed by no object of the receiver that is not replaced. -/
theorem ListsAgree.not_sentChunk (h : ListsAgree source dest) {name : String}
    (hsent : ∀ object, ¬ Sent hash ranges source name object) {id : UInt64}
    (hid : dest.maps.Lists id name) : ¬ SentChunk hash ranges source id := by
  intro hchunk
  rcases hchunk.exists_lists with ⟨name', object', hsent', hid'⟩
  have hsame := h id name' name hid' hid
  subst hsame
  exact hsent object' hsent'

/-- The objects of the receiver are the replaced ones and the ones it had. -/
theorem takeOver_object_cases (hkeyed : Keyed source.maps) {name : String}
    {object : MetaObject}
    (hname : (source.takeOver hash ranges dest).objects[name]? = some object) :
    (∃ sent, Sent hash ranges source name sent ∧ object = sent.transferred) ∨
      (∀ sent, ¬ Sent hash ranges source name sent) ∧ dest.objects[name]? = some object := by
  by_cases hsent : ∃ sent, Sent hash ranges source name sent
  · rcases hsent with ⟨sent, hsent⟩
    rw [takeOver_object_of_sent hkeyed hsent] at hname
    exact .inl ⟨sent, hsent, (Option.some.inj hname).symm⟩
  · have hnone := not_exists.mp hsent
    rw [takeOver_object_of_not_sent hkeyed hnone] at hname
    exact .inr ⟨hnone, hname⟩

theorem takeOver_integrity (hsource : WellReferenced source.maps)
    (hdest : Integrity dest.maps) (hlists : ListsAgree source dest) :
    Integrity (source.takeOver hash ranges dest).maps where
  confirms := by
    intro name object id hname hid
    rcases takeOver_object_cases hsource.toKeyed hname with
      ⟨sent, hsent, rfl⟩ | ⟨hsent, hname⟩
    · have hlisted : id ∈ sent.chunks := hid
      rcases hsource.confirms hsent.1 hlisted with ⟨chunk, hchunk, _, hnames⟩
      exact ⟨chunk.transferred,
        takeOver_chunk_of_sent hsource.toKeyed ⟨name, sent, hsent, hlisted⟩ hchunk, rfl, hnames⟩
    · rcases hdest.confirms hname hid with ⟨chunk, hchunk, hstatus, hnames⟩
      have hkept := hlists.not_sentChunk hsent ⟨object, hname, hid⟩
      refine ⟨chunk, ?_, hstatus, hnames⟩
      exact (takeOver_chunk_of_not_sent hsource.toKeyed hkept).trans hchunk
  nodup := by
    intro name object hname
    rcases takeOver_object_cases hsource.toKeyed hname with
      ⟨sent, hsent, rfl⟩ | ⟨_, hname⟩
    · have hnodup : sent.chunks.Nodup := hsource.nodup hsent.1
      exact hnodup
    · exact hdest.nodup hname

/-! ## Views -/

/-- An object without a recorded size is taken over as it is. -/
theorem takeOver_view_of_sent (hsource : WellReferenced source.maps) {name : String}
    {object : MetaObject} (hsent : Sent hash ranges source name object)
    (hsize : object.totalSize = 0) :
    (source.takeOver hash ranges dest).maps.view name = source.maps.view name := by
  have hname : (source.takeOver hash ranges dest).objects[name]? = source.objects[name]? := by
    have hsame := object.transferred_eq_iff.mpr hsize
    rw [takeOver_object_of_sent hsource.toKeyed hsent, hsame, hsent.1]
  refine view_congr hname fun id hid => ?_
  rcases hid with ⟨found, hfound, hlisted⟩
  have hsame : found = object := Option.some.inj (hfound.symm.trans hsent.1)
  subst hsame
  rcases hsource.confirms hfound hlisted with ⟨chunk, hchunk, hstatus, _⟩
  have htaken : (source.takeOver hash ranges dest).chunks[id]? = some chunk.transferred :=
    takeOver_chunk_of_sent hsource.toKeyed ⟨name, found, hsent, hlisted⟩ hchunk
  rw [chunk.transferred_eq hstatus] at htaken
  exact htaken.trans hchunk.symm

theorem takeOver_view_of_not_sent (hkeyed : Keyed source.maps) (hlists : ListsAgree source dest)
    {name : String} (hsent : ∀ object, ¬ Sent hash ranges source name object) :
    (source.takeOver hash ranges dest).maps.view name = dest.maps.view name :=
  view_congr (takeOver_object_of_not_sent hkeyed hsent) fun _ hid =>
    takeOver_chunk_of_not_sent hkeyed (hlists.not_sentChunk hsent hid)

/-- What the peer can answer: it refuses, it sends its whole stream, or the stream
breaks off. -/
inductive Answers (entries : List TransferPartitionEntry) : PeerAnswer → Prop where
  | unreachable (message : String) : Answers entries (.error message)
  | refused (status : Status) : Answers entries (.ok (.error status))
  | complete : Answers entries (.ok (.ok (entries.map .ok)))
  | broken (n : Nat) (status : Status) (rest : List (Except Status TransferPartitionEntry)) :
      Answers entries (.ok (.ok ((entries.take n).map .ok ++ .error status :: rest)))

theorem receive_broken (received : Received) (entries : List TransferPartitionEntry)
    (status : Status) (rest : List (Except Status TransferPartitionEntry)) :
    receive received (entries.map .ok ++ .error status :: rest) = .error status := by
  induction entries generalizing received with
  | nil => rfl
  | cons entry entries ih => exact ih (received.push entry)

/-- A pull takes over the whole batch, or changes nothing. -/
theorem pullPartition_maps_cases (lib : External) (io : SaveIo) (node : StorageMetadataImpl)
    {answer : PeerAnswer} (hanswer : Answers (source.transferPartition hash ranges) answer) :
    (node.pullPartition lib io answer).2.metadataStore.maps =
        (source.takeOver hash ranges node.metadataStore).maps ∨
      (node.pullPartition lib io answer).2 = node := by
  cases hanswer with
  | unreachable message => exact .inr rfl
  | refused status => exact .inr rfl
  | complete => exact .inl (pullPartition_maps lib io hash ranges source node)
  | broken n status rest =>
      refine .inr ?_
      simp only [StorageMetadataImpl.pullPartition, receive_broken]

/-- A pull keeps the receiver's referential integrity and leaves every record that is not
sent alone, whatever versions, reservations or leftovers the receiver holds. -/
theorem pull_keeps_integrity (lib : External) (io : SaveIo) (hash : String → UInt64)
    (ranges : List (UInt64 × UInt64)) (source : MetadataStore) (node : StorageMetadataImpl)
    (answer : PeerAnswer) (hanswer : Answers (source.transferPartition hash ranges) answer)
    (hsource : WellReferenced source.maps) (hdest : WellReferenced node.metadataStore.maps)
    (hids : IdsAgree source node.metadataStore) :
    let after := (node.pullPartition lib io answer).2.metadataStore
    WellReferenced after.maps ∧
      (∀ name : String, (∀ object, ¬ Sent hash ranges source name object) →
        after.objects[name]? = node.metadataStore.objects[name]?) ∧
      (∀ id : UInt64, ¬ SentChunk hash ranges source id →
        after.chunks[id]? = node.metadataStore.chunks[id]?) := by
  intro after
  rcases pullPartition_maps_cases lib io node hanswer with hmaps | hnode
  · have hobjects := congrArg Maps.objects hmaps
    have hchunks := congrArg Maps.chunks hmaps
    simp only [MetadataStore.maps] at hobjects hchunks
    refine ⟨?_, fun name hsent => ?_, fun id hsent => ?_⟩
    · rw [hmaps]
      exact ⟨takeOver_integrity hsource hdest.toIntegrity
          (hids.lists hsource.toIntegrity hdest.toIntegrity),
        keyed_ingest _ _ hdest.toKeyed⟩
    · exact hobjects ▸ takeOver_object_of_not_sent hsource.toKeyed hsent
    · exact hchunks ▸ takeOver_chunk_of_not_sent hsource.toKeyed hsent
  · have hafter : after = node.metadataStore := congrArg (·.metadataStore) hnode
    rw [hafter]
    exact ⟨hdest, fun _ _ => rfl, fun _ _ => rfl⟩

/-- A receiver with an older version of `a` and a reservation of its own. -/
def outdated : MetadataStore :=
  (MetadataStore.fresh MetaFiles.empty).afterCalls jsonLib
    [.constructStorageNode [1] "http://node-a:50051", .putObject 3 "a",
      .allocateChunk [10] 0 "a", .confirmChunk 10 "a" 3 1, .allocateChunk [30] 0 "b"]

theorem outdated_wellReferenced : WellReferenced outdated.maps := by
  have hreachable : Reachable jsonLib localEvent outdated := by
    refine (Reachable.start jsonLib localEvent).afterCalls ?_
    simp [localEvent, Op.FromPeer]
  rcases hreachable with ⟨g, hrun⟩
  exact ⟨(hrun.integrity jsonLib_lawful).1, (hrun.keyed jsonLib_lawful).1⟩

theorem uploaded_outdated_idsAgree : IdsAgree uploaded outdated := by
  have hall : ∀ entry ∈ uploaded.chunks.toList, ∀ entry' ∈ outdated.chunks.toList,
      entry.1 = entry'.1 → entry.2.objectName = entry'.2.objectName := by decide +kernel
  intro id chunk chunk' hchunk hchunk'
  exact hall (id, chunk) (Std.ExtTreeMap.mem_toList_iff_getElem?_eq_some.mpr hchunk)
    (id, chunk') (Std.ExtTreeMap.mem_toList_iff_getElem?_eq_some.mpr hchunk') rfl

theorem pull_keeps_integrity_outdated :
    let ranges := [(Library.xxh3 "a", Library.xxh3 "a" + 1)]
    let answer : PeerAnswer := .ok (.ok ((uploaded.transferPartition Library.xxh3 ranges).map .ok))
    WellReferenced
      ((⟨outdated, ∅⟩ : StorageMetadataImpl).pullPartition jsonLib .completes
        answer).2.metadataStore.maps := by
  intro ranges answer
  exact (pull_keeps_integrity jsonLib .completes Library.xxh3 ranges uploaded ⟨outdated, ∅⟩ answer
    .complete uploaded_wellReferenced outdated_wellReferenced uploaded_outdated_idsAgree).1

end StorageMetadata
end ObjectStore
