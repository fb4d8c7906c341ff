import ObjectStore.Io

/-!
# Storage metadata - The metadata store

`metadata_store.rs`: objects with their ordered chunk lists, chunk records with
their replica lists, and the registry of storage nodes.  Mutating methods change
the maps in memory first and call `save` last, so a failed `save` leaves a
changed memory over an unchanged file.

The persisted half of the state is modelled down to the bytes of the two files
involved: `save` writes and syncs a temporary file and renames it over the main
one, and `new` reads the main one back.

Main definitions:

- `MetadataStore`: the store together with the two files behind it.
- `MetadataStore.save` and `MetadataStore.new`: persistence.
- `putObject`, `putChunk`, `allocateChunk`, `confirmChunk`, `deleteChunk`,
  `deleteObject`, `addChunkReplica` and the rest: one definition per method.
-/

namespace ObjectStore
namespace StorageMetadata

/-! ## Records -/

/-- A registered storage node. -/
structure MetaStorageNode where
  id : UInt64
  address : String
deriving DecidableEq

/-- A chunk is pending from its allocation until its data has been confirmed. -/
inductive ChunkStatus where
  | pending
  | confirmed
deriving DecidableEq

/-- The record of a chunk. -/
structure MetaChunk where
  id : UInt64
  objectName : String
  checksum : UInt32
  /-- Ids of the storage nodes that hold a replica. -/
  storageNodes : List UInt64
  status : ChunkStatus
deriving DecidableEq

/-- The record of an object. -/
structure MetaObject where
  name : String
  checksum : UInt32
  /-- Chunk ids in the order of the object's bytes. -/
  chunks : List UInt64
  totalSize : UInt64
deriving DecidableEq

/-- A confirmed chunk without replicas. -/
def MetaChunk.new (id : UInt64) (checksum : UInt32) (objectName : String) : MetaChunk where
  id := id
  objectName := objectName
  checksum := checksum
  storageNodes := []
  status := .confirmed

/-- A chunk that has been allocated. -/
def MetaChunk.newPending (id : UInt64) (objectName : String) : MetaChunk where
  id := id
  objectName := objectName
  checksum := 0
  storageNodes := []
  status := .pending

/-- One more replica, unless it is recorded already. -/
def MetaChunk.addStorageNode (self : MetaChunk) (storageNodeId : UInt64) : MetaChunk :=
  { self with storageNodes := self.storageNodes ++ [storageNodeId] }

/-- An object without chunks. -/
def MetaObject.new (name : String) (checksum : UInt32) : MetaObject where
  name := name
  checksum := checksum
  chunks := []
  totalSize := 0

/-- One more chunk at the end. -/
def MetaObject.addChunk (self : MetaObject) (chunkId : UInt64) : MetaObject :=
  { self with chunks := self.chunks ++ [chunkId] }

/-! ## Persistence -/

/-- The only version of the file that is accepted. -/
def PERSISTENT_STATE_VERSION : UInt32 := 1

/-- What the file holds. -/
structure PersistentState where
  version : UInt32
  objects : HashMap String MetaObject
  chunks : HashMap UInt64 MetaChunk

/-- Third-party code the store calls: `serde_json` on `PersistentState`, and
`http::Uri::from_str`. -/
structure External where
  toJson : PersistentState → String
  fromJson : String → Except String PersistentState
  isUri : String → Bool

/-- What the store relies on `serde_json` for: it decodes what it encodes, and
the empty input is not a JSON document. -/
structure External.Lawful (lib : External) : Prop where
  fromJson_toJson : ∀ state, lib.fromJson (lib.toJson state) = .ok state
  fromJson_empty : ∀ state, lib.fromJson "" ≠ .ok state

/-- A file on disk.  What `sync_data` has not covered may be lost in a crash. -/
structure FileImage where
  contents : ByteArray
  synced : Bool

/-- The files at `path` and at `path.with_extension("tmp")`. -/
structure MetaFiles where
  main : Option FileImage
  tmp : Option FileImage

/-- No file exists yet. -/
def MetaFiles.empty : MetaFiles := ⟨none, none⟩

/-- `OpenOptions::new().write(true).create(true).truncate(true).open(&tmp_path)`. -/
def MetaFiles.createTmp (files : MetaFiles) : MetaFiles :=
  { files with tmp := some ⟨ByteArray.empty, false⟩ }

/-- `tmp_file.write_all(..)` on the file just truncated. -/
def MetaFiles.writeTmp (files : MetaFiles) (contents : ByteArray) : MetaFiles :=
  { files with tmp := some ⟨contents, false⟩ }

/-- `tmp_file.sync_data()`. -/
def MetaFiles.syncTmp (files : MetaFiles) : MetaFiles :=
  { files with tmp := files.tmp.map fun file => { file with synced := true } }

/-- `fs::rename(&tmp_path, &self.path)`. -/
def MetaFiles.renameTmp (files : MetaFiles) : MetaFiles :=
  match files.tmp with
  | some file => { main := some file, tmp := none }
  | none => files

/-- The steps of `save` that can fail, or during which the process can stop. -/
inductive SaveStep where
  | create
  /-- Only the first `n` bytes reach the temporary file. -/
  | write (n : Nat)
  | sync
  | rename

/-- How the file steps of one `save` go. -/
inductive SaveIo where
  | completes
  | stops (step : SaveStep) (error : IoError)

/-- The store of one metadata node. -/
structure MetadataStore where
  /-- What `path` and its temporary sibling hold. -/
  files : MetaFiles
  objects : HashMap String MetaObject
  chunks : HashMap UInt64 MetaChunk
  storageNodes : HashMap UInt64 MetaStorageNode

namespace MetadataStore

variable (lib : External)

/-- The state `save` writes. -/
def persistentState (self : MetadataStore) : PersistentState where
  version := PERSISTENT_STATE_VERSION
  objects := self.objects
  chunks := self.chunks

/-- A store over `files` that loaded nothing. -/
def fresh (files : MetaFiles) : MetadataStore where
  files := files
  objects := ∅
  chunks := ∅
  storageNodes := ∅

/-- `MetadataStore::new`.  A file that does not parse is dropped with a warning. -/
def new (files : MetaFiles) : IoResult MetadataStore :=
  match files.main with
  | none => .ok (fresh files)
  | some file =>
      if 0 < file.contents.size then
        match String.fromUTF8? file.contents with
        | none => .error ⟨.invalidData, "stream did not contain valid UTF-8"⟩
        | some contents =>
            match lib.fromJson contents with
            | .ok state =>
                -- storage nodes are not persisted; they re-register on startup
                .ok { fresh files with objects := state.objects, chunks := state.chunks }
            | .error _ => .ok (fresh files)
      else .ok (fresh files)

/-- `MetadataStore::save`: write the temporary file, sync it, rename it. -/
def save (io : SaveIo) (self : MetadataStore) : IoResult Unit × MetadataStore :=
  let json := (lib.toJson self.persistentState).toUTF8
  let created := self.files.createTmp
  let written := created.writeTmp json
  let synced := written.syncTmp
  match io with
  | .completes => (.ok (), { self with files := synced.renameTmp })
  | .stops .create error => (.error error, self)
  | .stops (.write n) error =>
      (.error error, { self with files := created.writeTmp (json.extract 0 n) })
  | .stops .sync error => (.error error, { self with files := written })
  | .stops .rename error => (.error error, { self with files := synced })

/-- `self.save()?; Ok(value)`. -/
def saveThen {α : Type} (io : SaveIo) (self : MetadataStore) (value : α) :
    IoResult α × MetadataStore :=
  match self.save lib io with
  | (.ok (), self) => (.ok value, self)
  | (.error error, self) => (.error error, self)

/-! ## Random choices -/

/-- `generate_unique_id` on the ids the generator draws; `none` while every id
drawn so far is taken and the loop goes on drawing. -/
def generateUniqueId {V : Type} (draws : List UInt64) (idMap : HashMap UInt64 V) :
    Option UInt64 :=
  draws.find? fun id => !idMap.contains id

/-- `choose_storage_node`, where `pick` is the index the generator draws. -/
def chooseStorageNode (pick : Nat) (self : MetadataStore) : Option MetaStorageNode :=
  self.storageNodes.valueList[pick % self.storageNodes.size]?

/-! ## Objects -/

/-- `put_object`: a name is used once. -/
def putObject (io : SaveIo) (self : MetadataStore) (checksum : UInt32) (name : String) :
    IoResult Unit × MetadataStore :=
  if self.objects.contains name then
    (.error ⟨.alreadyExists, s!"object name {name} already exists"⟩, self)
  else
    let object := MetaObject.new name checksum
    { self with objects := self.objects.insert name object }.saveThen lib io ()

/-- `get_object`. -/
def getObject (self : MetadataStore) (objectName : String) : IoResult MetaObject :=
  match self.objects[objectName]? with
  | some object => .ok object
  | none => .error ⟨.notFound, "object not found"⟩

/-- `delete_object`, with the chunks that the object lists. -/
def deleteObject (io : SaveIo) (self : MetadataStore) (objectName : String) :
    IoResult Unit × MetadataStore :=
  match self.objects[objectName]? with
  | none => (.error ⟨.notFound, "object not found"⟩, self)
  | some object =>
      { self with
        objects := self.objects.erase objectName
        -- a listed chunk that is already gone is ignored
        chunks := object.chunks.foldl (·.erase ·) self.chunks }.saveThen lib io ()

/-- `update_object_checksum`, the deferred checksum of a streaming upload. -/
def updateObjectChecksum (io : SaveIo) (self : MetadataStore) (objectName : String)
    (checksum : UInt32) (totalSize : UInt64) : IoResult Unit × MetadataStore :=
  match self.objects[objectName]? with
  | none => (.error ⟨.notFound, "object not found"⟩, self)
  | some object =>
      let object := { object with checksum := checksum, totalSize := totalSize }
      { self with objects := self.objects.insert objectName object }.saveThen lib io ()

/-- `list_objects`. -/
def listObjects (self : MetadataStore) : List MetaObject :=
  self.objects.valueList

/-! ## Chunks -/

/-- `put_chunk`, the one-phase path.  The record is inserted before the object is
looked up, and stays behind when there is none. -/
def putChunk (io : SaveIo) (draws : List UInt64) (pick : Nat) (self : MetadataStore)
    (objectName : String) (checksum : UInt32) :
    Option (IoResult (UInt64 × String) × MetadataStore) :=
  (generateUniqueId draws self.chunks).map fun chunkId =>
    match self.chooseStorageNode pick with
    | none => (.error ⟨.hostUnreachable, "no available storage node"⟩, self)
    | some storageNode =>
        let chunk := (MetaChunk.new chunkId checksum objectName).addStorageNode storageNode.id
        let self := { self with chunks := self.chunks.insert chunkId chunk }
        match self.objects[objectName]? with
        | none => (.error ⟨.notFound, "object not found"⟩, self)
        | some object =>
            { self with objects := self.objects.insert objectName (object.addChunk chunkId) }
              |>.saveThen lib io (chunkId, storageNode.address)

/-- `allocate_chunk` reserves an id with a `Pending` record and does not save. -/
def allocateChunk (draws : List UInt64) (pick : Nat) (self : MetadataStore)
    (objectName : String) :
    Option (IoResult (UInt64 × UInt64 × String) × MetadataStore) :=
  (generateUniqueId draws self.chunks).map fun chunkId =>
    match self.chooseStorageNode pick with
    | none => (.error ⟨.hostUnreachable, "no available storage node"⟩, self)
    | some storageNode =>
        let pendingChunk := MetaChunk.newPending chunkId objectName
        (.ok (chunkId, storageNode.id, storageNode.address),
          { self with chunks := self.chunks.insert chunkId pendingChunk })

/-- `confirm_chunk`: the record of the chunk is completed, and the object lists it. -/
def confirmChunk (io : SaveIo) (self : MetadataStore) (chunkId : UInt64)
    (objectName : String) (checksum : UInt32) (storageNodeId : UInt64) :
    IoResult Unit × MetadataStore :=
  if !self.storageNodes.contains storageNodeId then
    (.error ⟨.notFound, s!"storage node {storageNodeId} not found"⟩, self)
  -- an absent record is accepted too, for ids allocated without a reservation
  else if (self.chunks[chunkId]?).any (·.status = .confirmed) then
    (.error ⟨.alreadyExists, s!"chunk {chunkId} already confirmed"⟩, self)
  else
    match self.objects[objectName]? with
    | none => (.error ⟨.notFound, "object not found"⟩, self)
    | some object =>
        let chunk := (MetaChunk.new chunkId checksum objectName).addStorageNode storageNodeId
        { self with
          chunks := self.chunks.insert chunkId chunk
          objects := self.objects.insert objectName (object.addChunk chunkId) }
          |>.saveThen lib io ()

/-- `get_chunk`. -/
def getChunk (self : MetadataStore) (chunkId : UInt64) : IoResult (String × MetaChunk) :=
  match self.chunks[chunkId]? with
  | some chunk => .ok (chunk.objectName, chunk)
  | none => .error ⟨.notFound, "chunk not found"⟩

/-- `delete_chunk`.  The record is removed before its object is looked up. -/
def deleteChunk (io : SaveIo) (self : MetadataStore) (chunkId : UInt64) :
    IoResult Unit × MetadataStore :=
  match self.chunks[chunkId]? with
  | none => (.error ⟨.notFound, "could not find mapped object"⟩, self)
  | some chunk =>
      let self := { self with chunks := self.chunks.erase chunkId }
      match self.objects[chunk.objectName]? with
      | none => (.error ⟨.notFound, "object not found"⟩, self)
      | some object =>
          let object := { object with chunks := object.chunks.filter (· ≠ chunkId) }
          { self with objects := self.objects.insert chunk.objectName object }
            |>.saveThen lib io ()

/-! ## Replication -/

/-- `list_under_replicated_chunks`: the replicas that count are the recorded ones. -/
def listUnderReplicatedChunks (self : MetadataStore) (maxReplicas : Nat) : List MetaChunk :=
  (self.chunks.valueList.filter fun chunk =>
      chunk.status = .confirmed ∧ chunk.storageNodes.length < maxReplicas).insertionSort
    fun a b => a.storageNodes.length ≤ b.storageNodes.length

/-- The largest number of replicas of a chunk. -/
def MAX_REPLICAS : Nat := 3

/-- `add_chunk_replica`. -/
def addChunkReplica (io : SaveIo) (self : MetadataStore) (chunkId storageNodeId : UInt64) :
    IoResult Unit × MetadataStore :=
  if !self.storageNodes.contains storageNodeId then
    (.error ⟨.notFound, s!"storage node {storageNodeId} not found"⟩, self)
  else
    match self.chunks[chunkId]? with
    | none => (.error ⟨.notFound, "chunk not found"⟩, self)
    | some chunk =>
        if chunk.storageNodes.contains storageNodeId then
          (.error ⟨.alreadyExists,
            s!"chunk {chunkId} already exists on storage node {storageNodeId}"⟩, self)
        else if MAX_REPLICAS ≤ chunk.storageNodes.length then
          (.error ⟨.invalidInput,
            s!"chunk {chunkId} already has {chunk.storageNodes.length} replicas " ++
              s!"(max: {MAX_REPLICAS})"⟩, self)
        else
          { self with chunks := self.chunks.insert chunkId (chunk.addStorageNode storageNodeId) }
            |>.saveThen lib io ()

/-! ## Storage nodes -/

/-- `MetaStorageNode::new`. -/
def newStorageNode (id : UInt64) (address : String) : IoResult MetaStorageNode :=
  if lib.isUri address then .ok ⟨id, address⟩
  else .error ⟨.invalidInput, "invalid address"⟩

/-- `construct_storage_node`: an address that is registered keeps its id. -/
def constructStorageNode (draws : List UInt64) (self : MetadataStore) (address : String) :
    Option (IoResult UInt64 × MetadataStore) :=
  (generateUniqueId draws self.storageNodes).map fun id =>
    match newStorageNode lib id address with
    | .error error => (.error error, self)
    | .ok storageNode =>
        (.ok id, { self with storageNodes := self.storageNodes.insert id storageNode })

/-- `get_storage_node`. -/
def getStorageNode (self : MetadataStore) (storageNodeId : UInt64) : IoResult String :=
  match self.storageNodes[storageNodeId]? with
  | some storageNode => .ok storageNode.address
  | none => .error ⟨.notFound, s!"could not find storage_node_id {storageNodeId}"⟩

/-- `list_storage_nodes`. -/
def listStorageNodes (self : MetadataStore) : List MetaStorageNode :=
  self.storageNodes.valueList

/-- `delete_storage_node`. -/
def deleteStorageNode (self : MetadataStore) (storageNodeId : UInt64) :
    IoResult Unit × MetadataStore :=
  if self.storageNodes.contains storageNodeId then
    (.ok (), { self with storageNodes := self.storageNodes.erase storageNodeId })
  else (.error ⟨.notFound, s!"could not find storage node {storageNodeId}"⟩, self)

/-! ## Migration -/

/-- One round of the first loop of `ingest_partition`. -/
def insertObject (objects : HashMap String MetaObject) (object : MetaObject) :
    HashMap String MetaObject :=
  objects.insert object.name object

/-- One round of the second loop of `ingest_partition`. -/
def insertChunk (chunks : HashMap UInt64 MetaChunk) (chunk : MetaChunk) :
    HashMap UInt64 MetaChunk :=
  chunks.insert chunk.id chunk

/-- The two loops of `ingest_partition`: records of the same name or id are
overwritten. -/
def ingest (self : MetadataStore) (objects : List MetaObject) (chunks : List MetaChunk) :
    MetadataStore :=
  { self with
    objects := objects.foldl insertObject self.objects
    chunks := chunks.foldl insertChunk self.chunks }

/-- `ingest_partition`: records of a peer replace those of the node. -/
def ingestPartition (io : SaveIo) (self : MetadataStore) (objects : List MetaObject)
    (chunks : List MetaChunk) : IoResult Unit × MetadataStore :=
  (self.ingest objects chunks).saveThen lib io ()

/-- One round of the loop of `remove_objects`. -/
def removeObject (self : MetadataStore) (name : String) : MetadataStore :=
  match self.objects[name]? with
  | none => self
  | some object =>
      { self with
        objects := self.objects.erase name
        chunks := object.chunks.foldl (·.erase ·) self.chunks }

/-- `remove_objects`. -/
def removeObjects (io : SaveIo) (self : MetadataStore) (names : List String) :
    IoResult Unit × MetadataStore :=
  (names.foldl removeObject self).saveThen lib io ()

end MetadataStore

end StorageMetadata
end ObjectStore
