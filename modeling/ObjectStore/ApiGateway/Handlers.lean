import ObjectStore.Deployment.Rpc

/-!
# API gateway - The object handlers

The handlers of `handlers.rs` as programs over the calls they make.  An upload is cut
into chunks, which are allocated, written and confirmed one after the other; a download
reads the chunks from any of their storage nodes; a deletion removes the data, the chunk
records and then the object.  Metrics and tracing are left out.

Main definitions:

- `handlePutObject`, `handlePutObjectMultipart`: the two uploads.
- `storeChunk`: the calls that both make for a chunk.
- `handleGetObject`, `handleGetObjectStream`: the two downloads.
- `handleListObjects`: the listing, with the data of all chunks.
- `handleDeleteObject`: the deletion.
-/

namespace ObjectStore
namespace ApiGateway

open Deployment (MetadataCall Program)
open StorageMetadata.Proto (AllocateChunkResponse MetaStorageNode MetaChunk MetaObject
  GetObjectResponse)

/-! ## Responses -/

/-- The values of `StatusCode` that the handlers use. -/
inductive StatusCode where
  | badRequest
  | notFound
  | conflict
  | payloadTooLarge
  | internalServerError
deriving DecidableEq

/-- What a handler returns: the body of the response, or a status with a message. -/
abbrev HttpResult (α : Type) := Except (StatusCode × String) α

/-- The body of the response to an upload. -/
structure PutObjectResponsePayload where
  msg : String
  decodedBytesLen : Nat
deriving DecidableEq

/-- The body of the response to a JSON download, in base64. -/
structure GetObjectResponsePayload where
  bytes : String
deriving DecidableEq

/-- The body of the response to a deletion. -/
structure DeleteObjectResponsePayload where
  msg : String
deriving DecidableEq

/-- The libraries that the handlers use. -/
structure Library where
  /-- `char::is_alphanumeric`. -/
  isAlphanumeric : Char → Bool
  /-- `general_purpose::STANDARD`, with the text of its errors. -/
  decode : String → Except String Bytes
  encode : Bytes → String
  /-- `crc32fast`. -/
  crc32 : Bytes → UInt32
  /-- The `Display` of a `tonic::Status`. -/
  display : Status → String

/-- What the gateway relies on its base64 library for. -/
structure Library.Lawful (lib : Library) : Prop where
  decode_encode : ∀ bytes, lib.decode (lib.encode bytes) = .ok bytes

/-! ## Object names -/

/-- The longest object name, in bytes. -/
def MAX_OBJECT_NAME_LENGTH : Nat := 1024

/-- 10 GiB. -/
def MAX_OBJECT_SIZE : Nat := 10 * 1024 * 1024 * 1024

/-- Two slashes in a row. -/
def hasDoubleSlash : List Char → Bool
  | '/' :: '/' :: _ => true
  | _ :: chars => hasDoubleSlash chars
  | [] => false

/-- `validate_object_name`. -/
def validateObjectName (lib : Library) (name : String) : Except String Unit :=
  if name.isEmpty then .error "object name must not be empty"
  else if MAX_OBJECT_NAME_LENGTH < name.utf8ByteSize then
    .error s!"object name must not exceed {MAX_OBJECT_NAME_LENGTH} characters"
  else if !name.toList.all fun c =>
      lib.isAlphanumeric c || c == '-' || c == '_' || c == '.' || c == '/' then
    .error ("object name may only contain alphanumeric characters, hyphens, underscores, " ++
      "dots, and slashes")
  else if name.toList.head? == some '/' || name.toList.getLast? == some '/' then
    .error "object name must not start or end with a slash"
  else if hasDoubleSlash name.toList then
    .error "object name must not contain consecutive slashes"
  else .ok ()

/-! ## Connections and retries -/

/-- `retry_with_backoff`, without the delays. -/
def retryWithBackoff {ε α : Type} (f : Program (Except ε α)) : Nat → Program (Except ε α)
  | 0 => f
  | maxRetries + 1 => do
      match ← f with
      | .ok value => pure (.ok value)
      | .error _ => retryWithBackoff f maxRetries

/-- `get_or_connect` of the pool: a cached connection, or a new one. -/
def getOrConnect (address : String) : Program (HttpResult Unit) := do
  let cached : Bool ← Program.perform (.cachedConnection address)
  if cached then pure (.ok ())
  else
    let connected : Except String Unit ← Program.perform (.connectCached address)
    match connected with
    | .ok () => pure (.ok ())
    | .error err =>
        pure (.error (.internalServerError,
          s!"could not connect to storage node {address}: {err}"))

/-- The RPC `get_object`. -/
def getObject (objectName : String) : Program (Except Status GetObjectResponse) := do
  match ← Program.metadata (.lookupObject objectName) with
  | .error status => pure (.error status)
  | .ok object => Program.metadata (.resolveObject object)

/-! ## Uploads -/

/-- Delete the partially created object, whatever comes of it, and report the error. -/
def rollback {α : Type} (objectName : String) (error : StatusCode × String) :
    Program (HttpResult α) := do
  let _ ← Program.metadata (.deleteObject objectName)
  pure (.error error)

/-- `slice::chunks`; the fuel is the number of bytes. -/
def chunksFrom (chunkSize : Nat) : Nat → Bytes → List Bytes
  | _, [] => []
  | 0, _ => []
  | fuel + 1, bytes =>
      bytes.take chunkSize :: chunksFrom chunkSize fuel (bytes.drop chunkSize)

/-- `bytes.chunks(chunk_size)`. -/
def chunks (chunkSize : Nat) (bytes : Bytes) : List Bytes :=
  chunksFrom chunkSize bytes.length bytes

/-- The loop of `handle_put_object`.  A connection that fails is not rolled back. -/
def putChunks (lib : Library) (objectName : String) : List Bytes → Program (HttpResult Unit)
  | [] => pure (.ok ())
  | chunk :: chunked => do
      let chunkChecksum := lib.crc32 chunk
      match ← Program.metadata (.allocateChunk objectName chunkChecksum) with
      | .error _ => rollback objectName (.internalServerError, "could not allocate chunk")
      | .ok allocateResp =>
          match ← getOrConnect allocateResp.storageNodeAddress with
          | .error error => pure (.error error)
          | .ok () =>
              match ← Program.storageNode allocateResp.storageNodeAddress
                  (.writeChunk allocateResp.chunkId chunk) with
              | .error err =>
                  rollback objectName (.internalServerError,
                    s!"could not write chunk {allocateResp.chunkId} in object {objectName}: " ++
                      lib.display err)
              | .ok _ =>
                  match ← Program.metadata (.confirmChunk allocateResp.chunkId objectName
                      chunkChecksum allocateResp.storageNodeId) with
                  | .error err =>
                      rollback objectName (.internalServerError,
                        s!"could not confirm chunk {allocateResp.chunkId} in object " ++
                          s!"{objectName}: " ++ lib.display err)
                  | .ok () => putChunks lib objectName chunked

/-- `handle_put_object` from `put_object` on. -/
def storeObject (lib : Library) (objectName : String) (decodedBytes : Bytes)
    (chunkSize : StorageNode.ChunkSize) : Program (HttpResult PutObjectResponsePayload) := do
  match ← Program.metadata (.putObject (lib.crc32 decodedBytes) objectName) with
  | .error _ => pure (.error (.conflict, "object name already used"))
  | .ok () =>
      match ← putChunks lib objectName (chunks chunkSize.bytes decodedBytes) with
      | .error error => pure (.error error)
      | .ok () => pure (.ok ⟨"upload complete", decodedBytes.length⟩)

/-- `handle_put_object`. -/
def handlePutObject (lib : Library) (objectName payload : String) :
    Program (HttpResult PutObjectResponsePayload) := do
  match validateObjectName lib objectName with
  | .error msg => pure (.error (.badRequest, msg))
  | .ok () =>
      match lib.decode payload with
      | .error e => pure (.error (.badRequest, s!"invalid base64 encoding: {e}"))
      | .ok decodedBytes =>
          if MAX_OBJECT_SIZE < decodedBytes.length then
            pure (.error (.payloadTooLarge,
              s!"object size {decodedBytes.length} exceeds maximum allowed size {MAX_OBJECT_SIZE}"))
          else
            match ← Program.metadata .listStorageNodes with
            | .error err =>
                pure (.error (.internalServerError,
                  "no storage nodes found: " ++ lib.display err))
            | .ok [] => pure (.error (.internalServerError, "no storage nodes found"))
            | .ok (testNode :: _) =>
                match ← Program.connect testNode.address with
                | .error err =>
                    pure (.error (.internalServerError,
                      s!"could not connect to storage node {testNode.address}: {err}"))
                | .ok () =>
                    match ← Program.storageNode testNode.address .getChunkSize with
                    | .error err =>
                        pure (.error (.internalServerError,
                          "could not get chunk size: " ++ lib.display err))
                    | .ok chunkSize => storeObject lib objectName decodedBytes chunkSize

/-- `flush_chunk_to_storage`: allocates a chunk, writes it and confirms it. -/
def flushChunkToStorage (lib : Library) (buf : Bytes) (objectName : String) :
    Program (HttpResult Unit) := do
  let chunkChecksum := lib.crc32 buf
  match ← Program.metadata (.allocateChunk objectName chunkChecksum) with
  | .error err =>
      pure (.error (.internalServerError, "could not allocate chunk: " ++ lib.display err))
  | .ok alloc =>
      match ← getOrConnect alloc.storageNodeAddress with
      | .error error => pure (.error error)
      | .ok () =>
          match ← Program.storageNode alloc.storageNodeAddress
              (.writeChunk alloc.chunkId buf) with
          | .error err =>
              pure (.error (.internalServerError, "could not write chunk: " ++ lib.display err))
          | .ok _ =>
              match ← Program.metadata
                  (.confirmChunk alloc.chunkId objectName chunkChecksum alloc.storageNodeId) with
              | .error err =>
                  pure (.error (.internalServerError,
                    "could not confirm chunk: " ++ lib.display err))
              | .ok () => pure (.ok ())

/-- A field of a multipart body: its name, and what the reads of its data return until
the data ends or a read fails. -/
structure Field where
  name : Option String
  data : List (Except String Bytes)

/-- What the reads of the next field return until the body ends or a read fails. -/
abbrev Multipart := List (Except String Field)

/-- The loop that looks for the field `file`. -/
def findFile : Multipart → HttpResult Field
  | [] => .error (.badRequest, "missing 'file' field in multipart request")
  | .error err :: _ => .error (.badRequest, s!"multipart error: {err}")
  | .ok field :: fields => if field.name = some "file" then .ok field else findFile fields

/-- Flush full chunks; the fuel is the length of the buffer.  What remains is returned. -/
def flushFull (lib : Library) (objectName : String) (chunkSize : Nat) :
    Nat → Bytes → Program (HttpResult Bytes)
  | 0, buffer => pure (.ok buffer)
  | fuel + 1, buffer => do
      if chunkSize ≤ buffer.length then
        match ← flushChunkToStorage lib (buffer.take chunkSize) objectName with
        | .error e => pure (.error e)
        | .ok () => flushFull lib objectName chunkSize fuel (buffer.drop chunkSize)
      else pure (.ok buffer)

/-- The loop that reads the field: what is left in the buffer, and everything read. -/
def streamField (lib : Library) (objectName : String) (chunkSize : Nat)
    (buffer received : Bytes) : List (Except String Bytes) → Program (HttpResult (Bytes × Bytes))
  | [] => pure (.ok (buffer, received))
  | .error err :: _ => pure (.error (.badRequest, s!"stream read error: {err}"))
  | .ok chunkData :: rest => do
      let received := received ++ chunkData
      if MAX_OBJECT_SIZE < received.length then
        pure (.error (.payloadTooLarge, s!"object exceeds maximum size {MAX_OBJECT_SIZE}"))
      else
        let buffer := buffer ++ chunkData
        match ← flushFull lib objectName chunkSize buffer.length buffer with
        | .error e => pure (.error e)
        | .ok buffer => streamField lib objectName chunkSize buffer received rest

/-- Flush what remains of the body. -/
def flushRest (lib : Library) (objectName : String) (buffer : Bytes) :
    Program (HttpResult Unit) :=
  if buffer.isEmpty then pure (.ok ()) else flushChunkToStorage lib buffer objectName

/-- `handle_put_object_multipart` from `put_object` on. -/
def streamObject (lib : Library) (objectName : String) (multipart : Multipart)
    (chunkSize : StorageNode.ChunkSize) : Program (HttpResult PutObjectResponsePayload) := do
  match ← Program.metadata (.putObject 0 objectName) with
  | .error _ => pure (.error (.conflict, "object name already used"))
  | .ok () =>
      match findFile multipart with
      | .error error => rollback objectName error
      | .ok field =>
          match ← streamField lib objectName chunkSize.bytes [] [] field.data with
          | .error error => rollback objectName error
          | .ok (buffer, received) =>
              match ← flushRest lib objectName buffer with
              | .error error => rollback objectName error
              | .ok () =>
                  match ← Program.metadata (.updateObjectChecksum objectName
                      (lib.crc32 received) (UInt64.ofNat received.length)) with
                  | .error err =>
                      rollback objectName (.internalServerError,
                        "could not update object checksum: " ++ lib.display err)
                  | .ok () => pure (.ok ⟨"upload complete", received.length⟩)

/-- `handle_put_object_multipart`. -/
def handlePutObjectMultipart (lib : Library) (objectName : String) (multipart : Multipart) :
    Program (HttpResult PutObjectResponsePayload) := do
  match validateObjectName lib objectName with
  | .error msg => pure (.error (.badRequest, msg))
  | .ok () =>
      match ← Program.metadata .listStorageNodes with
      | .error err =>
          pure (.error (.internalServerError, "no storage nodes found: " ++ lib.display err))
      | .ok [] => pure (.error (.internalServerError, "no storage nodes found"))
      | .ok (testNode :: _) =>
          match ← Program.connect testNode.address with
          | .error err =>
              pure (.error (.internalServerError, s!"could not connect to storage node: {err}"))
          | .ok () =>
              match ← Program.storageNode testNode.address .getChunkSize with
              | .error err =>
                  pure (.error (.internalServerError,
                    "could not get chunk size: " ++ lib.display err))
              | .ok chunkSize => streamObject lib objectName multipart chunkSize

/-! ## One chunk

Both uploads make the same calls for a chunk.  They differ in what they do when one fails. -/

/-- Where storing a chunk can fail. -/
inductive ChunkError where
  | allocate (err : Status)
  | connect (error : StatusCode × String)
  | write (chunkId : UInt64) (err : Status)
  | confirm (chunkId : UInt64) (err : Status)

/-- One round of the loop of `handle_put_object`: a chunk is allocated, written and confirmed. -/
def storeChunk (lib : Library) (objectName : String) (chunk : Bytes) :
    Program (Except ChunkError Unit) := do
  match ← Program.metadata (.allocateChunk objectName (lib.crc32 chunk)) with
  | .error err => pure (.error (.allocate err))
  | .ok alloc =>
      match ← getOrConnect alloc.storageNodeAddress with
      | .error error => pure (.error (.connect error))
      | .ok () =>
          match ← Program.storageNode alloc.storageNodeAddress
              (.writeChunk alloc.chunkId chunk) with
          | .error err => pure (.error (.write alloc.chunkId err))
          | .ok _ =>
              match ← Program.metadata (.confirmChunk alloc.chunkId objectName (lib.crc32 chunk)
                  alloc.storageNodeId) with
              | .error err => pure (.error (.confirm alloc.chunkId err))
              | .ok () => pure (.ok ())

/-- The error of `flush_chunk_to_storage`. -/
def ChunkError.toError (lib : Library) : ChunkError → StatusCode × String
  | .allocate err => (.internalServerError, "could not allocate chunk: " ++ lib.display err)
  | .connect error => error
  | .write _ err => (.internalServerError, "could not write chunk: " ++ lib.display err)
  | .confirm _ err => (.internalServerError, "could not confirm chunk: " ++ lib.display err)

/-- How the loop of the JSON handler ends. -/
def ChunkError.leave (lib : Library) (objectName : String) :
    ChunkError → Program (HttpResult Unit)
  | .allocate _ => rollback objectName (.internalServerError, "could not allocate chunk")
  | .connect error => pure (.error error)
  | .write chunkId err =>
      rollback objectName (.internalServerError,
        s!"could not write chunk {chunkId} in object {objectName}: " ++ lib.display err)
  | .confirm chunkId err =>
      rollback objectName (.internalServerError,
        s!"could not confirm chunk {chunkId} in object " ++ s!"{objectName}: " ++ lib.display err)

theorem flushChunkToStorage_eq (lib : Library) (buf : Bytes) (objectName : String) :
    flushChunkToStorage lib buf objectName = (do
      match ← storeChunk lib objectName buf with
      | .error error => pure (.error (error.toError lib))
      | .ok () => pure (.ok ())) := by
  refine congrArg (Library.Program.call _) (funext fun allocated => ?_)
  change Except Status AllocateChunkResponse at allocated
  cases allocated with
  | error err => rfl
  | ok alloc =>
      let connect := getOrConnect alloc.storageNodeAddress
      refine Eq.trans ?_ (Library.Program.bind_assoc connect _ _).symm
      refine congrArg (connect >>= ·) (funext fun connected => ?_)
      cases connected with
      | error error => rfl
      | ok _ =>
          refine congrArg (Library.Program.call _) (funext fun written => ?_)
          change Except Status UInt64 at written
          cases written with
          | error err => rfl
          | ok _ =>
              refine congrArg (Library.Program.call _) (funext fun confirmed => ?_)
              change Except Status Unit at confirmed
              cases confirmed <;> rfl

theorem putChunks_cons (lib : Library) (objectName : String) (chunk : Bytes)
    (chunked : List Bytes) :
    putChunks lib objectName (chunk :: chunked) = (do
      match ← storeChunk lib objectName chunk with
      | .error error => error.leave lib objectName
      | .ok () => putChunks lib objectName chunked) := by
  refine congrArg (Library.Program.call _) (funext fun allocated => ?_)
  change Except Status AllocateChunkResponse at allocated
  cases allocated with
  | error err => rfl
  | ok alloc =>
      let connect := getOrConnect alloc.storageNodeAddress
      refine Eq.trans ?_ (Library.Program.bind_assoc connect _ _).symm
      refine congrArg (connect >>= ·) (funext fun connected => ?_)
      cases connected with
      | error error => rfl
      | ok _ =>
          refine congrArg (Library.Program.call _) (funext fun written => ?_)
          change Except Status UInt64 at written
          cases written with
          | error err => rfl
          | ok _ =>
              refine congrArg (Library.Program.call _) (funext fun confirmed => ?_)
              change Except Status Unit at confirmed
              cases confirmed <;> rfl

/-! ## Downloads -/

/-- Try each storage node until one succeeds. -/
def readChunk (chunkId : UInt64) : List MetaStorageNode → Program (Option Bytes)
  | [] => pure none
  | storageNode :: storageNodes => do
      match ← getOrConnect storageNode.address with
      | .error _ => readChunk chunkId storageNodes
      | .ok () =>
          match ← retryWithBackoff
              (Program.storageNode storageNode.address (.readChunk chunkId)) 2 with
          | .ok resp => pure (some resp.chunkBytes)
          | .error _ => readChunk chunkId storageNodes

/-- One of the futures that read the chunks. -/
def readTask (chunk : MetaChunk) : Program (HttpResult Bytes) := do
  match ← readChunk chunk.id chunk.storageNodes with
  | some bytes => pure (.ok bytes)
  | none =>
      pure (.error (.internalServerError,
        s!"could not read chunk {chunk.id} from any storage node"))

/-- The data of all chunks, or the first error. -/
def collect : List (HttpResult Bytes) → HttpResult Bytes
  | [] => .ok []
  | .error error :: _ => .error error
  | .ok bytes :: results =>
      match collect results with
      | .error error => .error error
      | .ok chunkData => .ok (bytes ++ chunkData)

/-- `handle_get_object`. -/
def handleGetObject (lib : Library) (objectName : String) :
    Program (HttpResult GetObjectResponsePayload) := do
  match validateObjectName lib objectName with
  | .error msg => pure (.error (.badRequest, msg))
  | .ok () =>
      match ← getObject objectName with
      | .error err =>
          pure (.error (.notFound,
            s!"could not get object {objectName}: " ++ lib.display err))
      | .ok response =>
          let results ← Program.joinAll (response.chunks.map readTask)
          match collect results with
          | .error error => pure (.error error)
          | .ok chunkData => pure (.ok ⟨lib.encode chunkData⟩)

/-- A streamed body: the data it yields, and the error that may end it. -/
structure StreamBody where
  yields : List Bytes
  error : Option IoError

/-- The stream of `handle_get_object_stream`. -/
def streamChunks : List MetaChunk → Program StreamBody
  | [] => pure ⟨[], none⟩
  | chunk :: chunks => do
      match ← readChunk chunk.id chunk.storageNodes with
      | none =>
          pure ⟨[], some ⟨.other,
            s!"could not read chunk {chunk.id} from any storage node"⟩⟩
      | some bytes =>
          let body ← streamChunks chunks
          pure { body with yields := bytes :: body.yields }

/-- The response together with its body, which is produced while it is sent. -/
def handleGetObjectStream (lib : Library) (objectName : String) :
    Program (HttpResult StreamBody) := do
  match validateObjectName lib objectName with
  | .error msg => pure (.error (.badRequest, msg))
  | .ok () =>
      match ← getObject objectName with
      | .error err =>
          pure (.error (.notFound,
            s!"could not get object {objectName}: " ++ lib.display err))
      | .ok response =>
          let body ← streamChunks response.chunks
          pure (.ok body)

/-! ## Listing -/

/-- A chunk in a listing. -/
structure ListObjectsResponseChunk where
  id : UInt64
  bytes : String
  nodeAddress : String
deriving DecidableEq

/-- An object in a listing, with its chunks. -/
structure ListObjectsResponsePayload where
  name : String
  chunks : List ListObjectsResponseChunk
deriving DecidableEq

/-- The address of the first storage node that accepts a connection, or the last error. -/
def connectFirst (lastErr : Option String) :
    List MetaStorageNode → Program (Except (Option String) String)
  | [] => pure (.error lastErr)
  | storageNode :: storageNodes => do
      match ← Program.connect storageNode.address with
      | .ok () => pure (.ok storageNode.address)
      | .error e => connectFirst (some e) storageNodes

/-- One round of the inner loop of `handle_list_objects`.  `debug` is the `Debug` of an error. -/
def listChunk (lib : Library) (debug : StatusCode × String → String) (chunk : MetaChunk) :
    Program (HttpResult ListObjectsResponseChunk) := do
  if chunk.storageNodes.isEmpty then
    pure (.error (.internalServerError, s!"chunk {chunk.id} has no storage nodes"))
  else
    match ← connectFirst none chunk.storageNodes with
    | .error lastErr =>
        let err := (StatusCode.internalServerError,
          s!"no storage node for chunk {chunk.id}: " ++ lastErr.getD "")
        pure (.error (.internalServerError,
          s!"could not read chunk {chunk.id} from storage nodes: " ++ debug err))
    | .ok address =>
        match ← Program.storageNode address (.readChunk chunk.id) with
        | .error err =>
            pure (.error (.internalServerError,
              s!"could not read chunk {chunk.id} from storage nodes: " ++ lib.display err))
        | .ok chunkResp => pure (.ok ⟨chunk.id, lib.encode chunkResp.chunkBytes, address⟩)

/-- The loop over the chunks of one object in `handle_list_objects`. -/
def listChunks (lib : Library) (debug : StatusCode × String → String) :
    List MetaChunk → Program (HttpResult (List ListObjectsResponseChunk))
  | [] => pure (.ok [])
  | chunk :: chunks => do
      match ← listChunk lib debug chunk with
      | .error error => pure (.error error)
      | .ok payload =>
          match ← listChunks lib debug chunks with
          | .error error => pure (.error error)
          | .ok payloads => pure (.ok (payload :: payloads))

/-- The loop over the objects in `handle_list_objects`. -/
def listEach (lib : Library) (debug : StatusCode × String → String) :
    List MetaObject → Program (HttpResult (List ListObjectsResponsePayload))
  | [] => pure (.ok [])
  | obj :: objectsList => do
      match ← listChunks lib debug obj.chunks with
      | .error error => pure (.error error)
      | .ok chunks =>
          match ← listEach lib debug objectsList with
          | .error error => pure (.error error)
          | .ok objectList => pure (.ok (⟨obj.name, chunks⟩ :: objectList))

/-- `handle_list_objects`, on the reply to its call `list_objects`. -/
def handleListObjects (lib : Library) (debug : StatusCode × String → String)
    (objects : Except Status (List MetaObject)) :
    Program (HttpResult (List ListObjectsResponsePayload)) :=
  match objects with
  | .error err =>
      pure (.error (.internalServerError, "could not list objects: " ++ lib.display err))
  | .ok objectsList => listEach lib debug objectsList

/-! ## Deletion -/

/-- One of the futures that delete the data; whether it was deleted. -/
def deleteTask (target : UInt64 × String) : Program Bool := do
  match ← getOrConnect target.2 with
  | .error _ => pure false
  | .ok () =>
      match ← retryWithBackoff (Program.storageNode target.2 (.deleteChunk target.1)) 2 with
      | .ok _ => pure true
      | .error _ => pure false

/-- Every chunk on every of its storage nodes. -/
def deleteTargets (chunks : List MetaChunk) : List (UInt64 × String) :=
  chunks.flatMap fun chunk =>
    chunk.storageNodes.map fun storageNode => (chunk.id, storageNode.address)

/-- Delete the chunk records one by one, whatever comes of it. -/
def deleteRecords : List MetaChunk → Program Unit
  | [] => pure ()
  | chunk :: chunks => do
      let _ ← Program.metadata (.deleteChunk chunk.id)
      deleteRecords chunks

/-- `handle_delete_object`. -/
def handleDeleteObject (lib : Library) (objectName : String) :
    Program (HttpResult DeleteObjectResponsePayload) := do
  match validateObjectName lib objectName with
  | .error msg => pure (.error (.badRequest, msg))
  | .ok () =>
      match ← getObject objectName with
      | .error err =>
          pure (.error (.notFound,
            if err.code = .notFound then "object not found"
            else s!"could not get object: {err.message}"))
      | .ok response =>
          let _ ← Program.joinAll ((deleteTargets response.chunks).map deleteTask)
          deleteRecords response.chunks
          match ← Program.metadata (.deleteObject objectName) with
          | .ok () => pure (.ok ⟨"object deleted"⟩)
          | .error err =>
              pure (.error (.internalServerError,
                if err.code = .notFound then "object not found"
                else s!"could not delete object: {err.message}"))

end ApiGateway
end ObjectStore
