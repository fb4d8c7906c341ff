import ObjectStore.ApiGateway.Contracts
import ObjectStore.System.Convergence
import ObjectStore.System.Sources

/-!
# System - An object that is stored survives

Uploads, downloads, listings, deletions of other objects and replication cycles in any
interleaving, with calls that fail before or after they take effect.  A cycle that could not
record a copy deletes it, and what it deletes may be a copy that another cycle has recorded.
One copy of each chunk is out of reach of this: the first one is in every listing.

Main definitions:

- `Deposit`: an object, the bytes of its chunks and a storage node for each of them.
- `Survives`: it is all still there.
- `sparing`: what the programs do not touch, and what they can see of it.

Main results:

- Theorem `Survives.step`: one call.
- Theorem `stored_object_survives`: any interleaving.
-/

namespace ObjectStore
namespace System

open ApiGateway (Download HttpResult Library Live Multipart Replica StatusCode StoredObject Upload
  content findFile flushChunkToStorage flushFull flushRest getOrConnect handleDeleteObject
  handleListObjects putChunks rollback storeChunk storeObject streamField streamObject)
open Deployment (Call Effect Environment MetadataCall NodeEffect SameMemory SameServices Services
  Step)
open ReplicationService (copyChunk hasSpace readSource recordReplica replicateChunk replicateChunks
  runReplicationCycle writeTarget)
open StorageMetadata (Keyed MetaChunk MetaObject MetadataStore RegistryKeyed)
open StorageMetadata.Proto (AllocateChunkResponse GetObjectResponse MetaStorageNode
  UnderReplicatedChunk)
open StorageNode (ChunkSize ReadChunkResponse)

/-! ## What shall survive -/

/-- An object with the bytes of its chunks, and for each of them the id of a storage node that
holds it.  Storage nodes have different addresses. -/
structure Deposit where
  name : String
  object : MetaObject
  pieces : UInt64 → Bytes
  home : UInt64 → UInt64
  registry : HashMap UInt64 StorageMetadata.MetaStorageNode
  nodup : object.chunks.Nodup
  nonempty : ∀ id ∈ object.chunks, pieces id ≠ []
  keyed : RegistryKeyed registry
  addresses : ∀ (nodeId nodeId' : UInt64) (node node' : StorageMetadata.MetaStorageNode),
    registry[nodeId]? = some node → registry[nodeId']? = some node' →
    node.address = node'.address → nodeId = nodeId'

variable {deposit : Deposit} {env : Environment} {s s' : Services} {m m' : MetadataStore}
  {call : Call} {reply : call.Reply} {id : UInt64} {bytes : Bytes} {name address : String}

/-- The record of a chunk, which names its home. -/
structure Deposit.Homed (deposit : Deposit) (id : UInt64) (chunk : MetaChunk) : Prop where
  owner : chunk.objectName = deposit.name
  confirmed : chunk.status = .confirmed
  home : deposit.home id ∈ chunk.storageNodes
  registered : ∀ nodeId ∈ chunk.storageNodes, nodeId ∈ deposit.registry

/-- The records are still there, and no other object lists the chunks. -/
structure Deposit.Recorded (deposit : Deposit) (m : MetadataStore) : Prop where
  keyed : Keyed m.maps
  stored : m.objects[deposit.name]? = some deposit.object
  chunks : ∀ id ∈ deposit.object.chunks, ∃ chunk, m.chunks[id]? = some chunk ∧
    deposit.Homed id chunk
  apart : ∀ (name : String) (object : MetaObject), m.objects[name]? = some object →
    name ≠ deposit.name → ∀ id ∈ object.chunks, id ∉ deposit.object.chunks
  registry : m.storageNodes = deposit.registry

/-- It is all still there, and nothing else is stored under the ids of the chunks. -/
structure Survives (deposit : Deposit) (s : Services) : Prop where
  recorded : deposit.Recorded s.metadata.metadataStore
  held : ∀ id ∈ deposit.object.chunks, ∃ node, deposit.registry[deposit.home id]? = some node ∧
    s.dataAt node.address id = some (deposit.pieces id)
  data : ∀ id ∈ deposit.object.chunks, ∀ (address : String) (bytes : Bytes),
    s.dataAt address id = some bytes → bytes = deposit.pieces id

/-! ## The contract -/

/-- The storage node at the address is not the home of the chunk. -/
def Deposit.Away (deposit : Deposit) (id : UInt64) (address : String) : Prop :=
  id ∈ deposit.object.chunks → ∀ node, deposit.registry[deposit.home id]? = some node →
    node.address ≠ address

/-- Calls that leave it alone. -/
def Spares (deposit : Deposit) : Call → Prop
  | .metadata (.confirmChunk _ name _ _) => name ≠ deposit.name
  | .metadata (.deleteChunk id) => id ∉ deposit.object.chunks
  | .metadata (.deleteObject name) => name ≠ deposit.name
  | .metadata (.updateObjectChecksum name _ _) => name ≠ deposit.name
  | .storageNode _ (.writeChunk id bytes) => id ∈ deposit.object.chunks → bytes = deposit.pieces id
  | .storageNode address (.deleteChunk id) => deposit.Away id address
  | _ => True

/-- What the services tell about it. -/
def Tells (deposit : Deposit) : (call : Call) → call.Reply → Prop
  | .metadata (.putObject _ name), (reply : Except Status Unit) =>
      reply = .ok () → name ≠ deposit.name
  | .metadata (.allocateChunk _ _), (reply : Except Status AllocateChunkResponse) =>
      ∀ alloc, reply = .ok alloc → alloc.chunkId ∉ deposit.object.chunks
  | .metadata (.lookupObject name), (reply : Except Status MetaObject) =>
      name ≠ deposit.name → ∀ object, reply = .ok object →
        ∀ id ∈ object.chunks, id ∉ deposit.object.chunks
  | .metadata (.resolveObject object), (reply : Except Status GetObjectResponse) =>
      ∀ response, reply = .ok response → ∀ chunk ∈ response.chunks, chunk.id ∈ object.chunks
  | .metadata .listStorageNodes, (reply : Except Status (List MetaStorageNode)) =>
      ∀ nodes, reply = .ok nodes → ∀ node ∈ nodes, ∃ registered,
        deposit.registry[node.id]? = some registered ∧ registered.address = node.address
  | .metadata (.listUnderReplicatedChunks _), (reply : Except Status (List UnderReplicatedChunk)) =>
      ∀ chunks, reply = .ok chunks → ∀ chunk ∈ chunks, chunk.chunkId ∈ deposit.object.chunks →
        deposit.home chunk.chunkId ∈ chunk.currentStorageNodeIds
  | .storageNode _ (.readChunk id), (reply : Except Status ReadChunkResponse) =>
      ∀ response, reply = .ok response → id ∈ deposit.object.chunks →
        response.chunkBytes = deposit.pieces id
  | _, _ => True

/-- Requests that leave the deposit alone, and replies that agree with it. -/
def sparing (deposit : Deposit) : Library.Contract Call Call.Reply where
  allowed := Spares deposit
  expects := Tells deposit

/-- An error tells nothing. -/
theorem tells_error {call : MetadataCall} (status : Status) :
    Tells deposit (.metadata call) (.error status : Except Status call.Response) := by
  cases call <;> simp [Tells]

/-! ## One call -/

theorem Deposit.Recorded.of_memory (h : deposit.Recorded m) (hmemory : SameMemory m' m) :
    deposit.Recorded m' where
  keyed := by
    rw [MetadataStore.maps, hmemory.objects, hmemory.chunks]
    exact h.keyed
  stored := by
    rw [hmemory.objects]
    exact h.stored
  chunks := by
    rw [hmemory.chunks]
    exact h.chunks
  apart := by
    rw [hmemory.objects]
    exact h.apart
  registry := hmemory.storageNodes.trans h.registry

/-- Reads make no difference. -/
theorem Survives.same (h : Survives deposit s) (hsame : SameServices s s') :
    Survives deposit s' where
  recorded := h.recorded.of_memory hsame.memory
  held id hid := by
    rcases h.held id hid with ⟨node, hnode, hdata⟩
    exact ⟨node, hnode, (hsame.dataAt node.address id).trans hdata⟩
  data id hid address bytes hbytes := by
    rw [hsame.dataAt] at hbytes
    exact h.data id hid address bytes hbytes

/-- A confirmation takes a chunk that is not confirmed yet. -/
theorem Deposit.Recorded.not_mem_of_pending (h : deposit.Recorded m)
    (hid : ∀ chunk, m.chunks[id]? = some chunk → chunk.status = .pending) :
    id ∉ deposit.object.chunks := by
  intro hmem
  rcases h.chunks id hmem with ⟨chunk, hchunk, hhomed⟩
  cases (hid chunk hchunk).symm.trans hhomed.confirmed

/-- The objects after a call. -/
theorem Deposit.Recorded.apart_effect {call : MetadataCall} {reply : Except Status call.Response}
    (h : deposit.Recorded m) (heffect : Effect m call reply m') {object : MetaObject}
    (hobject : m'.objects[name]? = some object) (hname : name ≠ deposit.name)
    (hid : id ∈ object.chunks) : id ∉ deposit.object.chunks := by
  rcases Effect.mem_chunks heffect hobject hid with ⟨found, hfound, hmem⟩ | ⟨_, _, rfl⟩
  · exact h.apart name found hfound hname id hmem
  · cases heffect with
    | refused _ => exact h.apart name object hobject hname id hid
    | confirmChunk _ _ _ hpending => exact h.not_mem_of_pending hpending

/-- A call that spares the deposit leaves its object alone. -/
theorem Deposit.Recorded.stored_effect {call : MetadataCall} {reply : Except Status call.Response}
    (h : deposit.Recorded m) (hspares : Spares deposit (.metadata call))
    (heffect : Effect m call reply m') : m'.objects[deposit.name]? = some deposit.object := by
  cases heffect with
  | @putObject _ name hname =>
      have hne : deposit.name ≠ name := by
        rintro rfl
        cases h.stored.symm.trans hname
      exact (HashMap.getElem?_insert_of_ne _ _ hne).trans h.stored
  | confirmChunk _ _ _ _ =>
      exact (HashMap.getElem?_insert_of_ne _ _ (Ne.symm hspares)).trans h.stored
  | @deleteChunk id chunk object hid hname =>
      by_cases hown : deposit.name = chunk.objectName
      · rw [← hown] at hname
        cases hname.symm.trans h.stored
        have hsame : deposit.object.removeChunk id = deposit.object := by
          have hfilter : deposit.object.chunks.filter (· ≠ id) = deposit.object.chunks := by
            rw [List.filter_eq_self]
            intro other hother
            refine decide_eq_true fun heq => hspares ?_
            exact heq ▸ hother
          rw [MetaObject.removeChunk, hfilter]
        rw [hsame, ← hown]
        exact Std.ExtTreeMap.getElem?_insert_self
      · exact (HashMap.getElem?_insert_of_ne _ _ hown).trans h.stored
  | deleteObject _ => exact (HashMap.getElem?_erase_of_ne _ (Ne.symm hspares)).trans h.stored
  | updateObjectChecksum _ _ _ =>
      exact (HashMap.getElem?_insert_of_ne _ _ (Ne.symm hspares)).trans h.stored
  | _ => exact h.stored

/-- It leaves the records of its chunks alone, up to more replicas. -/
theorem Deposit.Recorded.chunks_effect {call : MetadataCall} {reply : Except Status call.Response}
    (h : deposit.Recorded m) (hspares : Spares deposit (.metadata call))
    (heffect : Effect m call reply m') (hid : id ∈ deposit.object.chunks) :
    ∃ chunk, m'.chunks[id]? = some chunk ∧ deposit.Homed id chunk := by
  rcases h.chunks id hid with ⟨chunk, hchunk, hhomed⟩
  have hother : ∀ {other : UInt64}, other ∉ deposit.object.chunks → id ≠ other := by
    rintro other hnew rfl
    exact hnew hid
  cases heffect with
  | @allocateChunk _ _ other _ hfree _ =>
      have hne : id ≠ other := by
        rintro rfl
        cases hchunk.symm.trans hfree
      exact ⟨chunk, (HashMap.getElem?_insert_of_ne _ _ hne).trans hchunk, hhomed⟩
  | confirmChunk _ _ _ hpending =>
      have hne := hother (h.not_mem_of_pending hpending)
      exact ⟨chunk, (HashMap.getElem?_insert_of_ne _ _ hne).trans hchunk, hhomed⟩
  | deleteChunk _ _ =>
      exact ⟨chunk, (HashMap.getElem?_erase_of_ne _ (hother hspares)).trans hchunk, hhomed⟩
  | deleteOrphan _ _ _ =>
      exact ⟨chunk, (HashMap.getElem?_erase_of_ne _ (hother hspares)).trans hchunk, hhomed⟩
  | @deleteObject name object hname =>
      refine ⟨chunk, ?_, hhomed⟩
      change (object.chunks.foldl (·.erase ·) m.chunks)[id]? = some chunk
      have hnot : id ∉ object.chunks := fun hmem => h.apart name object hname hspares id hmem hid
      rw [HashMap.getElem?_foldl_erase, if_neg hnot]
      exact hchunk
  | @addChunkReplica other nodeId record hrecord hnode _ _ =>
      by_cases heq : id = other
      · subst heq
        cases hchunk.symm.trans hrecord
        refine ⟨_, Std.ExtTreeMap.getElem?_insert_self, hhomed.owner, hhomed.confirmed,
          List.mem_append_left _ hhomed.home, fun other hmem => ?_⟩
        rcases List.mem_append.mp hmem with hmem | hmem
        · exact hhomed.registered other hmem
        · rw [List.mem_singleton.mp hmem, ← h.registry]
          exact hnode
      · exact ⟨chunk, (HashMap.getElem?_insert_of_ne _ _ heq).trans hchunk, hhomed⟩
  | _ => exact ⟨chunk, hchunk, hhomed⟩

/-- It leaves the deposit recorded. -/
theorem Deposit.Recorded.effect {call : MetadataCall} {reply : Except Status call.Response}
    (h : deposit.Recorded m) (hspares : Spares deposit (.metadata call))
    (heffect : Effect m call reply m') : deposit.Recorded m' where
  keyed := Effect.keyed heffect h.keyed
  stored := h.stored_effect hspares heffect
  chunks _ hid := h.chunks_effect hspares heffect hid
  apart _ _ hobject hname _ hid := h.apart_effect heffect hobject hname hid
  registry := by
    rw [← h.registry]
    cases heffect <;> rfl

/-- What the metadata node tells. -/
theorem Deposit.Recorded.tells {call : MetadataCall} {reply : Except Status call.Response}
    (h : deposit.Recorded m) (heffect : Effect m call reply m') :
    Tells deposit (.metadata call) reply := by
  cases heffect with
  | refused status => exact tells_error status
  | deleteOrphan _ _ status => exact tells_error status
  | listStorageNodes hnodes =>
      rintro nodes ⟨rfl⟩ node hnode
      rcases List.mem_map.mp (hnodes.mem_iff.mp hnode) with ⟨registered, hregistered, rfl⟩
      rcases HashMap.mem_valueList.mp hregistered with ⟨nodeId, hfound⟩
      rw [h.registry] at hfound
      have hkey : registered.id = nodeId := deposit.keyed nodeId registered hfound
      exact ⟨registered, hkey ▸ hfound, rfl⟩
  | @putObject _ name hname =>
      rintro _ rfl
      cases h.stored.symm.trans hname
  | @allocateChunk name checksum id node hid _ =>
      rintro alloc ⟨rfl⟩ hmem
      rcases h.chunks id hmem with ⟨chunk, hchunk, _⟩
      cases hchunk.symm.trans hid
  | lookupObject hname =>
      rintro hother object ⟨rfl⟩
      exact h.apart _ _ hname hother
  | resolveObject hresponse =>
      rintro response ⟨rfl⟩ chunk hchunk
      rw [(StorageMetadata.resolveObject_eq_ok_iff.mp hresponse).2] at hchunk
      exact response_ids h.keyed hchunk
  | listUnderReplicatedChunks hchunks =>
      rintro chunks ⟨rfl⟩ chunk hchunk hmem
      rcases hchunks chunk hchunk with ⟨record, hrecord, _, rfl⟩
      rcases HashMap.mem_valueList.mp hrecord with ⟨id, hfound⟩
      have hkey : record.id = id := h.keyed.chunk hfound
      rcases h.chunks record.id hmem with ⟨homed, hhomed, hhome⟩
      rw [hkey, hfound] at hhomed
      cases hhomed
      exact hhome.home
  | _ => trivial

/-- Writes and deletions on a storage node. -/
theorem Survives.node_effect {call : StorageNode.Call} {reply : Except Status call.Response}
    (h : Survives deposit s) (hspares : Spares deposit (.storageNode address call))
    (hmetadata : s'.metadata = s.metadata)
    (heffect : NodeEffect env s.nodes address call reply s'.nodes)
    (hcall : (∃ id bytes, call = .writeChunk id bytes) ∨ ∃ id, call = .deleteChunk id) :
    Survives deposit s' where
  recorded := by
    rw [hmetadata]
    exact h.recorded
  held id hid := by
    rcases h.held id hid with ⟨node, hnode, hdata⟩
    refine ⟨node, hnode, ?_⟩
    rcases hcall with ⟨written, bytes, rfl⟩ | ⟨deleted, rfl⟩
    · rw [heffect.writeChunk_dataAt.2]
      split
      · rename_i heq
        rcases heq with ⟨_, _, rfl⟩
        rw [hspares hid]
      · exact hdata
    · rw [heffect.deleteChunk_dataAt, if_neg]
      · exact hdata
      · rintro ⟨_, haddress, rfl⟩
        exact hspares hid node hnode haddress
  data id hid other bytes hbytes := by
    rcases NodeEffect.dataAt_from heffect hbytes with hbytes | rfl
    · exact h.data id hid other bytes hbytes
    · exact hspares hid

/-- One call that leaves it alone, whatever fails. -/
theorem Survives.step (h : Survives deposit s) (hspares : Spares deposit call)
    (hstep : Step env .any s call reply s') : Tells deposit call reply ∧ Survives deposit s' := by
  cases call with
  | metadata call =>
      have hnodes := hstep.metadata_nodes
      rcases hstep.metadata_effect_any with ⟨reply', m, heffect, hmemory, hreply⟩
      have hdata : ∀ address id, s'.dataAt address id = s.dataAt address id := by
        intro address id
        simp only [Services.dataAt, hnodes]
      constructor
      · rcases hreply with rfl | ⟨status, rfl⟩
        · exact h.recorded.tells heffect
        · exact tells_error status
      · constructor
        · exact (h.recorded.effect hspares heffect).of_memory hmemory
        · intro id hid
          rcases h.held id hid with ⟨node, hnode, hheld⟩
          exact ⟨node, hnode, (hdata node.address id).trans hheld⟩
        · intro id hid address bytes hbytes
          rw [hdata] at hbytes
          exact h.data id hid address bytes hbytes
  | storageNode address call =>
      rcases hstep.storageNode_effect_any with ⟨hmetadata, reply', heffect, hreply⟩
      cases call with
      | writeChunk id bytes =>
          exact ⟨trivial, h.node_effect hspares hmetadata heffect (.inl ⟨id, bytes, rfl⟩)⟩
      | deleteChunk id =>
          exact ⟨trivial, h.node_effect hspares hmetadata heffect (.inr ⟨id, rfl⟩)⟩
      | readChunk id =>
          refine ⟨?_, h.same (hstep.reads trivial)⟩
          rintro response hresponse hid
          rcases hreply with rfl | ⟨status, rfl⟩
          · subst hresponse
            generalize s'.nodes = nodes at heffect
            cases heffect with
            | readChunk hnode hlive =>
                exact h.data id hid address _ (Services.dataAt_eq_some_iff.mpr ⟨_, hnode, hlive⟩)
          · cases hresponse
      | getFreeChunks | getChunkSize => exact ⟨trivial, h.same (hstep.reads trivial)⟩
  | connect _ | cachedConnection _ | connectCached _ | choose _ | turn =>
      exact ⟨trivial, h.same (hstep.reads trivial)⟩

/-! ## Uploads -/

/-- A program that leaves it alone. -/
abbrev LeavesAlone {α : Type} (deposit : Deposit) (program : Deployment.Program α)
    (post : α → Prop) : Prop :=
  program.Honours (sparing deposit) post

/-- Reads spare everything. -/
theorem spares_of_reads (h : call.Reads) : Spares deposit call := by
  cases call with
  | metadata call => cases call <;> first | exact h.elim | trivial
  | storageNode address call => cases call <;> first | exact h.elim | trivial
  | _ => trivial

/-- A program that reads leaves the deposit alone. -/
theorem leavesAlone_of_reads {α : Type} {program : Deployment.Program α}
    (h : program.Only Call.Reads) : LeavesAlone deposit program fun _ => True :=
  h.honours fun _ => spares_of_reads

theorem getOrConnect_leavesAlone (address : String) :
    LeavesAlone deposit (getOrConnect address) fun _ => True :=
  leavesAlone_of_reads ((ApiGateway.getOrConnect_probes address).mono fun _ hcall =>
    hcall.looks.reads)

/-- A chunk for another object is none of the deposit's. -/
theorem storeChunk_leavesAlone (lib : Library) (hname : name ≠ deposit.name) (bytes : Bytes) :
    LeavesAlone deposit (storeChunk lib name bytes) fun _ => True := by
  refine ⟨trivial, fun (allocated : Except Status AllocateChunkResponse) hallocated => ?_⟩
  cases allocated with
  | error err => trivial
  | ok alloc =>
      -- the id was free, so it is none of the chunks
      have hnew : alloc.chunkId ∉ deposit.object.chunks := hallocated alloc rfl
      apply (getOrConnect_leavesAlone alloc.storageNodeAddress).of_bind
      intro connected _
      cases connected with
      | error error => trivial
      | ok _ =>
          refine ⟨fun hmem => absurd hmem hnew, fun (written : Except Status UInt64) _ => ?_⟩
          cases written with
          | error err => trivial
          | ok _ =>
              refine ⟨hname, fun (confirmed : Except Status Unit) _ => ?_⟩
              cases confirmed <;> trivial

theorem flushChunkToStorage_leavesAlone (lib : Library) (hname : name ≠ deposit.name)
    (bytes : Bytes) :
    LeavesAlone deposit (flushChunkToStorage lib bytes name) fun _ => True :=
  ApiGateway.flushChunkToStorage_honours (storeChunk_leavesAlone lib hname bytes)

theorem rollback_leavesAlone {α : Type} (hname : name ≠ deposit.name)
    (error : StatusCode × String) :
    LeavesAlone deposit (rollback name error : Deployment.Program (HttpResult α)) fun _ => True :=
  ApiGateway.rollback_honours hname error

theorem putChunks_leavesAlone (lib : Library) (hname : name ≠ deposit.name)
    (chunked : List Bytes) :
    LeavesAlone deposit (putChunks lib name chunked) fun _ => True :=
  ApiGateway.putChunks_honours hname fun chunk _ => storeChunk_leavesAlone lib hname chunk

/-- An upload goes on only if its name was free. -/
theorem storeObject_leavesAlone (lib : Library) (size : ChunkSize) (bytes : Bytes) :
    LeavesAlone deposit (storeObject lib name bytes size) fun _ => True := by
  refine ⟨trivial, fun (created : Except Status Unit) hcreated => ?_⟩
  cases created with
  | error _ => trivial
  | ok _ =>
      have hname : name ≠ deposit.name := hcreated rfl
      apply (putChunks_leavesAlone lib hname _).of_bind
      intro stored _
      cases stored <;> trivial

variable {n : Nat} {buffer received : Bytes}

theorem flushFull_leavesAlone (lib : Library) (hname : name ≠ deposit.name) (fuel : Nat) :
    LeavesAlone deposit (flushFull lib name n fuel buffer) fun _ => True := by
  induction fuel generalizing buffer with
  | zero => trivial
  | succ fuel ih =>
      unfold flushFull
      split
      · apply (flushChunkToStorage_leavesAlone lib hname _).of_bind
        intro flushed _
        cases flushed with
        | error e => trivial
        | ok _ => exact ih
      · trivial

theorem streamField_leavesAlone (lib : Library) (hname : name ≠ deposit.name)
    (reads : List (Except String Bytes)) :
    LeavesAlone deposit (streamField lib name n buffer received reads) fun _ => True := by
  induction reads generalizing buffer received with
  | nil => trivial
  | cons read reads ih =>
      cases read with
      | error err => trivial
      | ok chunkData =>
          unfold streamField
          dsimp only
          split
          · trivial
          · apply (flushFull_leavesAlone lib hname _).of_bind
            intro flushed _
            cases flushed with
            | error e => trivial
            | ok left => exact ih

theorem flushRest_leavesAlone (lib : Library) (hname : name ≠ deposit.name) :
    LeavesAlone deposit (flushRest lib name buffer) fun _ => True := by
  unfold flushRest
  split
  · trivial
  · exact flushChunkToStorage_leavesAlone lib hname buffer

/-- A multipart upload to another name leaves the deposit alone. -/
theorem streamObject_leavesAlone (lib : Library) (fields : Multipart) (size : ChunkSize) :
    LeavesAlone deposit (streamObject lib name fields size) fun _ => True := by
  refine ⟨trivial, fun (created : Except Status Unit) hcreated => ?_⟩
  cases created with
  | error _ => trivial
  | ok _ =>
      have hname : name ≠ deposit.name := hcreated rfl
      dsimp only [Library.Program.bind]
      cases findFile fields with
      | error error => exact rollback_leavesAlone hname error
      | ok field =>
          apply (streamField_leavesAlone lib hname field.data).of_bind
          intro streamed _
          cases streamed with
          | error error => exact rollback_leavesAlone hname error
          | ok rest =>
              apply (flushRest_leavesAlone lib hname).of_bind
              intro flushed _
              cases flushed with
              | error error => exact rollback_leavesAlone hname error
              | ok _ =>
                  refine ⟨hname, fun (updated : Except Status Unit) _ => ?_⟩
                  cases updated with
                  | error err => exact rollback_leavesAlone hname _
                  | ok _ => trivial

/-- An upload, also one under the name of the object. -/
theorem upload_leavesAlone (upload : Upload) (lib : Library) (name : String) :
    LeavesAlone deposit (upload.handler lib name) fun _ => True := by
  apply Upload.honours
  · exact fun call => spares_of_reads
  · intro address size bytes _
    exact storeObject_leavesAlone lib size bytes
  · intro address size fields _
    exact streamObject_leavesAlone lib fields size

/-! ## Cycles -/

/-- What is read of the deposit's chunks is what it holds. -/
theorem readSource_leavesAlone (sourceNodeId : UInt64) :
    LeavesAlone deposit (readSource id sourceNodeId) fun result =>
      ∀ bytes, result = .ok bytes → id ∈ deposit.object.chunks → bytes = deposit.pieces id := by
  refine ⟨trivial, fun (found : Except Status String) _ => ?_⟩
  cases found with
  | error _ => exact fun bytes => nofun
  | ok sourceAddress =>
      refine ⟨trivial, fun (connected : Except String Unit) _ => ?_⟩
      cases connected with
      | error _ => exact fun bytes => nofun
      | ok _ =>
          refine ⟨trivial, fun (read : Except Status ReadChunkResponse) hread => ?_⟩
          cases read with
          | error _ => exact fun bytes => nofun
          | ok response =>
              rintro bytes ⟨rfl⟩
              exact hread response rfl

/-- A copy of the deposit's chunks is what it holds. -/
theorem writeTarget_leavesAlone (targetAddress : String)
    (hbytes : id ∈ deposit.object.chunks → bytes = deposit.pieces id) :
    LeavesAlone deposit (writeTarget targetAddress id bytes) fun _ => True := by
  refine ⟨trivial, fun (connected : Except String Unit) _ => ?_⟩
  cases connected with
  | error _ => trivial
  | ok _ =>
      refine ⟨hbytes, fun (written : Except Status UInt64) _ => ?_⟩
      cases written <;> trivial

/-- A copy that could not be recorded is deleted. -/
theorem recordReplica_leavesAlone {targetNode : MetaStorageNode}
    (haway : deposit.Away id targetNode.address) :
    LeavesAlone deposit (recordReplica id targetNode) fun _ => True := by
  refine ⟨trivial, fun (recorded : Except Status Unit) _ => ?_⟩
  cases recorded with
  | ok _ => trivial
  | error _ =>
      refine ⟨trivial, fun (connected : Except String Unit) _ => ?_⟩
      cases connected with
      | error _ => trivial
      | ok _ => exact ⟨haway, fun _ _ => trivial⟩

/-- A copy goes to a node that holds none of the deposit's replicas. -/
theorem copyChunk_leavesAlone (crc32 : Bytes → UInt32) (chunk : UnderReplicatedChunk)
    {targetNode : MetaStorageNode} (haway : deposit.Away chunk.chunkId targetNode.address) :
    LeavesAlone deposit (copyChunk crc32 chunk targetNode) fun _ => True := by
  unfold copyChunk
  split
  · trivial
  · rename_i sourceNodeId _ _
    apply (readSource_leavesAlone sourceNodeId).of_bind
    intro read hread
    cases read with
    | error label => trivial
    | ok chunkData =>
        dsimp only
        split
        · trivial
        · apply (writeTarget_leavesAlone targetNode.address (hread chunkData rfl)).of_bind
          intro written _
          cases written with
          | error label => trivial
          | ok _ => exact recordReplica_leavesAlone haway

/-- A storage node that is not listed for the chunk is not its home. -/
theorem Deposit.away_of_not_listed {chunk : UnderReplicatedChunk} {targetNode : MetaStorageNode}
    (hhome : chunk.chunkId ∈ deposit.object.chunks →
      deposit.home chunk.chunkId ∈ chunk.currentStorageNodeIds)
    (hregistered : ∃ registered, deposit.registry[targetNode.id]? = some registered ∧
      registered.address = targetNode.address)
    (hother : targetNode.id ∉ chunk.currentStorageNodeIds) :
    deposit.Away chunk.chunkId targetNode.address := by
  intro hid node hnode haddress
  rcases hregistered with ⟨registered, hfound, htarget⟩
  have heq := deposit.addresses _ _ node registered hnode hfound (haddress.trans htarget.symm)
  exact hother (heq ▸ hhome hid)

/-- The turn of a chunk copies it to such a node. -/
theorem replicateChunk_leavesAlone (crc32 : Bytes → UInt32) {nodes : List MetaStorageNode}
    {chunk : UnderReplicatedChunk}
    (hnodes : ∀ node ∈ nodes, ∃ registered, deposit.registry[node.id]? = some registered ∧
      registered.address = node.address)
    (hhome : chunk.chunkId ∈ deposit.object.chunks →
      deposit.home chunk.chunkId ∈ chunk.currentStorageNodeIds) :
    LeavesAlone deposit (replicateChunk crc32 nodes chunk) fun _ => True := by
  unfold replicateChunk
  dsimp only
  split
  · trivial
  · refine ⟨trivial, fun picked _ => ?_⟩
    dsimp only [Library.Program.bind]
    split
    · trivial
    · rename_i targetNode htarget
      have hmem := List.mem_of_getElem? htarget
      rw [List.mem_filter] at hmem
      have hother : targetNode.id ∉ chunk.currentStorageNodeIds := by simpa using hmem.2
      have hspace : LeavesAlone deposit (hasSpace targetNode.address) fun _ => True :=
        leavesAlone_of_reads ((ReplicationService.hasSpace_looks targetNode.address).mono
          fun _ hcall => hcall.reads)
      apply hspace.of_bind
      intro space _
      split
      · exact copyChunk_leavesAlone crc32 chunk
          (Deposit.away_of_not_listed hhome (hnodes targetNode hmem.1) hother)
      · trivial

theorem replicateChunks_leavesAlone (crc32 : Bytes → UInt32) {nodes : List MetaStorageNode}
    {chunks : List UnderReplicatedChunk}
    (hnodes : ∀ node ∈ nodes, ∃ registered, deposit.registry[node.id]? = some registered ∧
      registered.address = node.address)
    (hchunks : ∀ chunk ∈ chunks, chunk.chunkId ∈ deposit.object.chunks →
      deposit.home chunk.chunkId ∈ chunk.currentStorageNodeIds) :
    LeavesAlone deposit (replicateChunks crc32 nodes chunks) fun _ => True := by
  induction chunks with
  | nil => trivial
  | cons chunk chunks ih =>
      rw [List.forall_mem_cons] at hchunks
      apply (replicateChunk_leavesAlone crc32 hnodes hchunks.1).of_bind
      intro outcome _
      apply (ih hchunks.2).of_bind
      exact fun _ _ => trivial

/-- A cycle leaves the deposit alone. -/
theorem cycle_leavesAlone (crc32 : Bytes → UInt32) (maxChunksPerCycle : Nat) :
    LeavesAlone deposit (runReplicationCycle crc32 maxChunksPerCycle) fun _ => True := by
  refine ⟨trivial, fun (listed : Except Status (List UnderReplicatedChunk)) hlisted => ?_⟩
  cases listed with
  | error _ => trivial
  | ok chunks =>
      dsimp only [Library.Program.bind]
      split
      · trivial
      · refine ⟨trivial, fun (found : Except Status (List MetaStorageNode)) hfound => ?_⟩
        cases found with
        | error _ => trivial
        | ok nodes =>
            dsimp only [Library.Program.bind]
            split
            · trivial
            · have hchunks : ∀ chunk ∈ chunks.take maxChunksPerCycle,
                  chunk.chunkId ∈ deposit.object.chunks →
                    deposit.home chunk.chunkId ∈ chunk.currentStorageNodeIds :=
                fun chunk hchunk => hlisted chunks rfl chunk (List.mem_of_mem_take hchunk)
              apply (replicateChunks_leavesAlone crc32 (hfound nodes rfl) hchunks).of_bind
              exact fun _ _ => trivial

/-! ## Deletions of other objects -/

/-- Another object lists none of the deposit's chunks. -/
theorem getObject_leavesAlone (hname : name ≠ deposit.name) :
    LeavesAlone deposit (ApiGateway.getObject name) fun result =>
      ∀ response, result = .ok response → ∀ chunk ∈ response.chunks,
        chunk.id ∉ deposit.object.chunks := by
  refine ⟨trivial, fun (found : Except Status MetaObject) hfound => ?_⟩
  cases found with
  | error _ => exact fun response => nofun
  | ok object =>
      refine ⟨trivial, fun (resolved : Except Status GetObjectResponse) hresolved => ?_⟩
      rintro response rfl chunk hchunk
      exact hfound hname object rfl chunk.id (hresolved response rfl chunk hchunk)

/-- Deletions of other chunks spare the deposit. -/
theorem spares_of_deletes {ids : List UInt64} (hids : ∀ id ∈ ids, id ∉ deposit.object.chunks)
    (h : ApiGateway.Deletes ids call) : Spares deposit call := by
  cases call with
  | metadata call => cases call <;> first | exact h.elim | exact hids _ h | trivial
  | storageNode address call =>
      cases call with
      | writeChunk _ _ => exact h.elim
      | deleteChunk id => exact fun hmem => absurd hmem (hids id h)
      | _ => trivial
  | _ => trivial

/-- A deletion of another object leaves the deposit alone. -/
theorem handleDeleteObject_leavesAlone (lib : Library) (hname : name ≠ deposit.name) :
    LeavesAlone deposit (handleDeleteObject lib name) fun _ => True := by
  unfold handleDeleteObject
  split
  · trivial
  · apply (getObject_leavesAlone hname).of_bind
    intro found hfound
    cases found with
    | error err => trivial
    | ok response =>
        have hmem : ∀ chunk ∈ response.chunks, chunk.id ∈ response.chunks.map (·.id) :=
          fun chunk hchunk => List.mem_map_of_mem hchunk
        have hids : ∀ id ∈ response.chunks.map (·.id), id ∉ deposit.object.chunks := by
          intro id hid
          rcases List.mem_map.mp hid with ⟨chunk, hchunk, rfl⟩
          exact hfound response rfl chunk hchunk
        apply ((ApiGateway.stages_only hmem).honours fun _ => spares_of_deletes hids).of_bind
        intro _ _
        apply ((ApiGateway.deleteRecords_only hmem).honours fun _ => spares_of_deletes hids).of_bind
        intro _ _
        refine ⟨hname, fun (deleted : Except Status Unit) _ => ?_⟩
        cases deleted <;> trivial

/-! ## Any interleaving -/

/-- What runs in the deployment, but for deletions of the object. -/
inductive Others (lib : Library) (debug : StatusCode × String → String) (name : String) :
    Deployment.Program Exchange → Prop where
  | put (upload : Upload) (other : String) :
      Others lib debug name
        (upload.handler lib other >>= fun response => pure (.put upload other response))
  | get (download : Download) (other : String) :
      Others lib debug name
        (download.handler lib other >>= fun response => pure (.get download other response))
  | list (objects : Except Status (List StorageMetadata.Proto.MetaObject)) :
      Others lib debug name
        (handleListObjects lib debug objects >>= fun response => pure (.list response))
  | delete {other : String} (hother : other ≠ name) :
      Others lib debug name
        (handleDeleteObject lib other >>= fun response => pure (.delete other response))
  | cycle (maxChunksPerCycle : Nat) :
      Others lib debug name
        (runReplicationCycle lib.crc32 maxChunksPerCycle >>= fun result =>
          pure (.cycle maxChunksPerCycle result))

variable {lib : Library} {debug : StatusCode × String → String} {crc32 : Bytes → UInt32}
  {pieces : UInt64 → Bytes} {object : MetaObject}

/-- So does everything else that runs. -/
theorem Others.leavesAlone {program : Deployment.Program Exchange}
    (h : Others lib debug deposit.name program) : LeavesAlone deposit program fun _ => True := by
  cases h with
  | put upload other => exact (upload_leavesAlone upload lib other).of_bind fun _ _ => trivial
  | get download other =>
      have hreads : (download.handler lib other).Only Call.Reads :=
        (Download.handler_looks lib other download).mono fun _ hcall => hcall.reads
      exact (leavesAlone_of_reads hreads).of_bind fun _ _ => trivial
  | list objects =>
      exact (leavesAlone_of_reads (handleListObjects_reads lib debug objects)).of_bind
        fun _ _ => trivial
  | delete hother =>
      exact (handleDeleteObject_leavesAlone lib hother).of_bind fun _ _ => trivial
  | cycle maxChunksPerCycle =>
      exact (cycle_leavesAlone lib.crc32 maxChunksPerCycle).of_bind fun _ _ => trivial

/-- Whatever interleaves and whatever fails. -/
theorem Survives.pool (h : Survives deposit s) {programs : List (Deployment.Program Exchange)}
    (hsteps : Relation.ReflTransGen (Library.PoolStep (Step env .any)
      (Others lib debug deposit.name)) (s, []) (s', programs)) : Survives deposit s' :=
  (sparing deposit).pool_invariant (fun _ _ _ _ hsurvives hspares => hsurvives.step hspares)
    (fun _ hothers => hothers.leavesAlone) h hsteps

/-! ## The object afterwards -/

/-- A deposit that survives is well stored. -/
theorem Survives.storedObject (h : Survives deposit s) :
    StoredObject s deposit.name deposit.object deposit.pieces where
  stored := h.recorded.stored
  nodup := deposit.nodup
  recorded id hid := by
    rcases h.recorded.chunks id hid with ⟨chunk, hchunk, hhomed⟩
    exact ⟨chunk, hchunk, h.recorded.keyed.chunk hchunk, hhomed.owner⟩
  data id hid address _ bytes hbytes := h.data id hid address bytes hbytes
  nonempty := deposit.nonempty

/-- Its chunks can be resolved. -/
theorem Survives.resolvable (h : Survives deposit s) :
    StorageMetadata.Resolvable s.metadata.metadataStore deposit.object.chunks := by
  intro id hid
  rcases h.recorded.chunks id hid with ⟨chunk, hchunk, hhomed⟩
  rw [h.recorded.registry]
  exact ⟨chunk, hchunk, hhomed.registered⟩

/-- The copy at its home is enough. -/
theorem Survives.live (h : Survives deposit s) (hid : id ∈ deposit.object.chunks) : Live s id := by
  rcases h.recorded.chunks id hid with ⟨chunk, hchunk, hhomed⟩
  rcases h.held id hid with ⟨node, hnode, hdata⟩
  rw [← h.recorded.registry] at hnode
  have hreplica : Replica s id node.address :=
    replica_iff.mpr ⟨chunk, deposit.home id, node, hchunk, hhomed.home, hnode, rfl⟩
  exact ⟨node.address, hreplica, Option.isSome_iff_exists.mpr ⟨_, hdata⟩⟩

/-- It can be downloaded. -/
theorem Survives.delivers (h : Survives deposit s) (download : Download)
    (hvalid : ApiGateway.validateObjectName lib deposit.name = .ok ())
    {response : download.Response}
    (hrun : (download.handler lib deposit.name).Runs (Step env .none) s response s') :
    download.Delivers lib (content deposit.object deposit.pieces) response := by
  have hrely := ApiGateway.untouched_readRely deposit.name deposit.object.chunks
  have hnone : Deployment.Faults.none ≠ .any := by decide
  have hdownload : (download.handler lib deposit.name).Ensures
      (Library.Amid (ApiGateway.Untouched deposit.name deposit.object.chunks)
        (Step env .none)) _ s :=
    (h.storedObject.download_ensures lib hnone download).amid hrely.refl
  have hpost := hrun.ensures (hdownload.anti fun _ _ _ _ hstep => ⟨_, hrely.refl _, hstep⟩)
  exact (hpost.1 (hpost.2 rfl hvalid h.resolvable fun _ => h.live)).1

/-- A store at rest has all that is needed. -/
theorem Tidy.exists_deposit (h : Tidy crc32 [] pieces s)
    (haddresses : ∀ (nodeId nodeId' : UInt64) (node node' : StorageMetadata.MetaStorageNode),
      s.metadata.metadataStore.storageNodes[nodeId]? = some node →
      s.metadata.metadataStore.storageNodes[nodeId']? = some node' →
      node.address = node'.address → nodeId = nodeId')
    (hname : s.metadata.metadataStore.objects[name]? = some object) :
    ∃ deposit : Deposit, deposit.name = name ∧ deposit.object = object ∧
      deposit.pieces = pieces ∧ Survives deposit s := by
  have hchunks : ∀ id ∈ object.chunks, ∃ chunk,
      s.metadata.metadataStore.chunks[id]? = some chunk ∧ chunk.objectName = name ∧
        Placed s.metadata.metadataStore id chunk := by
    intro id hid
    rcases h.catalogued.listed name object hname id hid with ⟨chunk, hchunk, howner⟩
    exact ⟨chunk, hchunk, howner, h.catalogued.placed id chunk hchunk⟩
  let home : UInt64 → UInt64 := fun id =>
    ((s.metadata.metadataStore.chunks[id]?).bind (·.storageNodes.head?)).getD 0
  have hhome : ∀ {id : UInt64} {chunk : MetaChunk},
      s.metadata.metadataStore.chunks[id]? = some chunk →
      Placed s.metadata.metadataStore id chunk → home id ∈ chunk.storageNodes := by
    intro id chunk hchunk hplaced
    rcases List.exists_cons_of_ne_nil hplaced.replicated with ⟨first, rest, hlist⟩
    simp [home, hchunk, hlist]
  refine ⟨⟨name, object, pieces, home, s.metadata.metadataStore.storageNodes,
    h.catalogued.nodup name object hname, fun id hid => ?_, h.catalogued.keyed, haddresses⟩,
    rfl, rfl, rfl, ⟨?_, hname, ?_, ?_, rfl⟩, ?_, ?_⟩
  · rcases hchunks id hid with ⟨chunk, hchunk, _⟩
    exact (h.whole id chunk hchunk).1
  · exact ⟨fun hchunk => (h.catalogued.placed _ _ hchunk).key, fun hobject =>
      h.catalogued.named _ _ hobject⟩
  · intro id hid
    rcases hchunks id hid with ⟨chunk, hchunk, howner, hplaced⟩
    exact ⟨chunk, hchunk, howner, hplaced.confirmed, hhome hchunk hplaced, hplaced.registered⟩
  · intro other found hfound hne id hid hmem
    rcases h.catalogued.listed other found hfound id hid with ⟨chunk, hchunk, howner⟩
    rcases hchunks id hmem with ⟨chunk', hchunk', howner', _⟩
    cases hchunk.symm.trans hchunk'
    exact hne (howner.symm.trans howner')
  · intro id hid
    rcases hchunks id hid with ⟨chunk, hchunk, _, hplaced⟩
    have hmem := hhome hchunk hplaced
    rcases HashMap.mem_iff_exists_getElem?.mp (hplaced.registered _ hmem) with ⟨node, hnode⟩
    exact ⟨node, hnode, h.held id node.address nofun
      (replica_iff.mpr ⟨chunk, _, node, hchunk, hmem, hnode, rfl⟩)⟩
  · intro id _ address bytes hbytes
    have hheld := h.held id address nofun (h.owned id address bytes hbytes).2
    exact Option.some.inj (hbytes.symm.trans hheld)

/-- Nothing that goes on besides, and no failure of it, costs an object that is stored: once a
download meets no failure itself, it delivers all of its bytes. -/
theorem stored_object_survives (env : Environment) (lib : Library)
    (debug : StatusCode × String → String) (crc32 : Bytes → UInt32) (s s' s'' : Services)
    (map : String → Option Bytes) (h : Represents crc32 s map)
    (haddresses : ∀ (nodeId nodeId' : UInt64) (node node' : StorageMetadata.MetaStorageNode),
      s.metadata.metadataStore.storageNodes[nodeId]? = some node →
      s.metadata.metadataStore.storageNodes[nodeId']? = some node' →
      node.address = node'.address → nodeId = nodeId')
    (name : String) (bytes : Bytes) (hname : map name = some bytes)
    (programs : List (Deployment.Program Exchange))
    (hsteps : Relation.ReflTransGen (Library.PoolStep (Step env .any) (Others lib debug name))
      (s, []) (s', programs))
    (download : Download) (hvalid : ApiGateway.validateObjectName lib name = .ok ())
    (response : download.Response)
    (hrun : (download.handler lib name).Runs (Step env .none) s' response s'') :
    download.Delivers lib bytes response := by
  rcases h with ⟨pieces, htidy, rfl⟩
  rcases Option.map_eq_some_iff.mp hname with ⟨object, hobject, rfl⟩
  rcases htidy.exists_deposit haddresses hobject with ⟨deposit, rfl, rfl, rfl, hsurvives⟩
  exact (hsurvives.pool hsteps).delivers download hvalid hrun

/-- A cycle over the byte on the first of three storage nodes. -/
def replicateByte : Deployment.Program Exchange :=
  runReplicationCycle ApiGateway.plainLibrary.crc32 100 >>= fun result =>
    pure (.cycle 100 result)

/-- The new copy cannot be recorded, since the file of the metadata node cannot be renamed. -/
def unrecordedChoices : List Deployment.Choice :=
  .replicate 10 .plain ++ [⟨.stops .rename ⟨.storageFull, ""⟩, [], 0, ""⟩, .plain, .plain]

/-- An object survives a cycle and an upload to another name. -/
theorem stored_object_survives_unreplicated :
    ∃ (s' : Services) (exchange : Exchange) (response : Download.json.Response),
      Relation.ReflTransGen (Library.PoolStep (Step ApiGateway.plainEnvironment .any)
        (Others ApiGateway.plainLibrary (·.2) "a")) (unreplicated, []) (s', [.done exchange]) ∧
      Download.json.Delivers ApiGateway.plainLibrary [104] response := by
  have hrun : (replicateByte.replay (fun s call choice =>
      s.serve ApiGateway.plainEnvironment choice call) unrecordedChoices unreplicated).any
        (fun (_, s') => ((Download.json.handler ApiGateway.plainLibrary "a").replay
          (roomyNext ApiGateway.plainEnvironment) (.replicate 9 .plain) s').isSome) = true := by
    decide +kernel
  rcases (Option.any_eq_true _ _).mp hrun with ⟨⟨exchange, s'⟩, hcycle, hrest⟩
  rcases Option.isSome_iff_exists.mp hrest with ⟨⟨response, s''⟩, hget⟩
  have hruns : replicateByte.Runs (Step ApiGateway.plainEnvironment .any) unreplicated exchange
      s' :=
    Library.Program.runs_of_replay (fun _ _ _ _ _ hserve => .served (.inr rfl) hserve) hcycle
  have hgets : (Download.json.handler ApiGateway.plainLibrary "a").Runs
      (RoomyStep ApiGateway.plainEnvironment) s' response s'' :=
    Library.Program.runs_of_replay roomyNext_step hget
  have hsteps : Relation.ReflTransGen (Library.PoolStep (Step ApiGateway.plainEnvironment .any)
      (Others ApiGateway.plainLibrary (·.2) "a")) (unreplicated, []) (s', [.done exchange]) :=
    .head (.spawn (.cycle 100)) (hruns.pool (i := 0) rfl)
  have hobject : unreplicated.metadata.metadataStore.objects["a"]? = some ⟨"a", 7, [10], 1⟩ := by
    decide +kernel
  have hname : contents (fun _ => [104]) unreplicated "a" = some [104] := by
    rw [contents, hobject]
    rfl
  exact ⟨s', exchange, response, hsteps, stored_object_survives ApiGateway.plainEnvironment
    ApiGateway.plainLibrary (·.2) Library.crc32 unreplicated s' s'' _ ⟨_, unreplicated_tidy, rfl⟩
    unreplicated_spread.addresses "a" [104] hname _ hsteps .json rfl response
    (hgets.mono fun _ _ _ _ hstep => hstep.1)⟩

end System
end ObjectStore
