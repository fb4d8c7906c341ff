import ObjectStore.Deployment.Rpc
import ObjectStore.StorageMetadata.Handler
import ObjectStore.StorageMetadata.Persistence

/-!
# Deployment - The effect of calls

What a call can reply and what it makes of the services, said once for the metadata node
and once for the storage nodes.  A failed call is refused and changes nothing, unless
failures take effect.

Main results:

- Theorems `serveMetadata_effect`, `Step.metadata_effect`: the metadata node.
- Theorem `Step.storageNode_effect`: the storage nodes.
- Theorem `Step.of_ok`: a call that succeeds has not met a failure.
- Theorem `Step.reads`: calls that only read change nothing.
- Theorem `Step.has_iff`: only creations and deletions of a name change whether it is
  stored.
-/

namespace ObjectStore
namespace Deployment

open StorageMetadata (MetadataStore MetaObject MetaChunk MetaStorageNode SaveIo
  StorageMetadataImpl)
open StorageMetadata.Proto (UnderReplicatedChunk)
open StorageNode (BoundedMap)

/-! ## The metadata node -/

/-- The same maps in memory; the files may differ. -/
structure SameMemory (s m : MetadataStore) : Prop where
  objects : s.objects = m.objects
  chunks : s.chunks = m.chunks
  storageNodes : s.storageNodes = m.storageNodes

theorem SameMemory.refl (s : MetadataStore) : SameMemory s s := ⟨rfl, rfl, rfl⟩

/-- A save leaves the memory alone. -/
theorem SameMemory.of_save (lib : StorageMetadata.External) (io : SaveIo) (m : MetadataStore) :
    SameMemory (m.save lib io).2 m where
  objects := StorageMetadata.save_objects lib io m
  chunks := StorageMetadata.save_chunks lib io m
  storageNodes := StorageMetadata.save_storageNodes lib io m

/-- What an answered request has done to the memory of the metadata node. -/
inductive Effect (s : MetadataStore) :
    (call : MetadataCall) → Except Status call.Response → MetadataStore → Prop where
  | refused {call : MetadataCall} (status : Status) : Effect s call (.error status) s
  | listStorageNodes {nodes : List StorageMetadata.Proto.MetaStorageNode}
      (hnodes : nodes.Perm (s.listStorageNodes.map fun node => ⟨node.id, node.address⟩)) :
      Effect s .listStorageNodes (.ok nodes) s
  | putObject (checksum : UInt32) {name : String} (hname : s.objects[name]? = none) :
      Effect s (.putObject checksum name) (.ok ()) (s.withObject name (.new name checksum))
  | allocateChunk (name : String) (checksum : UInt32) {id : UInt64} {node : MetaStorageNode}
      (hid : s.chunks[id]? = none) (hnode : node ∈ s.storageNodes.valueList) :
      Effect s (.allocateChunk name checksum) (.ok ⟨id, node.address, node.id⟩)
        (s.withChunk id (.newPending id name))
  | confirmChunk (checksum : UInt32) {id nodeId : UInt64} {name : String} {object : MetaObject}
      (hname : s.objects[name]? = some object) (hnode : nodeId ∈ s.storageNodes)
      (hid : ∀ chunk, s.chunks[id]? = some chunk → chunk.status = .pending) :
      Effect s (.confirmChunk id name checksum nodeId) (.ok ())
        (s.withAttached id name object checksum nodeId)
  | lookupObject {name : String} {object : MetaObject} (hname : s.objects[name]? = some object) :
      Effect s (.lookupObject name) (.ok object) s
  | resolveObject {object : MetaObject} {response : StorageMetadata.Proto.GetObjectResponse}
      (hresponse : s.resolveObject object = .ok response) :
      Effect s (.resolveObject object) (.ok response) s
  | deleteChunk {id : UInt64} {chunk : MetaChunk} {object : MetaObject}
      (hid : s.chunks[id]? = some chunk) (hname : s.objects[chunk.objectName]? = some object) :
      Effect s (.deleteChunk id) (.ok ())
        ((s.withoutChunk id).withObject chunk.objectName (object.removeChunk id))
  /-- The record of a missing object is removed, and the request fails. -/
  | deleteOrphan {id : UInt64} {chunk : MetaChunk} (hid : s.chunks[id]? = some chunk)
      (hname : s.objects[chunk.objectName]? = none) (status : Status) :
      Effect s (.deleteChunk id) (.error status) (s.withoutChunk id)
  | deleteObject {name : String} {object : MetaObject} (hname : s.objects[name]? = some object) :
      Effect s (.deleteObject name) (.ok ()) (s.withoutObject name object)
  | updateObjectChecksum (checksum : UInt32) (totalSize : UInt64) {name : String}
      {object : MetaObject} (hname : s.objects[name]? = some object) :
      Effect s (.updateObjectChecksum name checksum totalSize) (.ok ())
        (s.withObject name { object with checksum := checksum, totalSize := totalSize })
  | getStorageNode {id : UInt64} {node : MetaStorageNode} (hid : s.storageNodes[id]? = some node) :
      Effect s (.getStorageNode id) (.ok node.address) s
  | listUnderReplicatedChunks {maxReplicas : UInt32} {chunks : List UnderReplicatedChunk}
      (hchunks : ∀ chunk ∈ chunks, ∃ record ∈ s.chunks.valueList, record.status = .confirmed ∧
        chunk = ⟨record.id, record.checksum, record.storageNodes⟩) :
      Effect s (.listUnderReplicatedChunks maxReplicas) (.ok chunks) s
  | addChunkReplica {id nodeId : UInt64} {chunk : MetaChunk} (hid : s.chunks[id]? = some chunk)
      (hnode : nodeId ∈ s.storageNodes) (hnew : nodeId ∉ chunk.storageNodes)
      (hroom : chunk.storageNodes.length < MetadataStore.MAX_REPLICAS) :
      Effect s (.addChunkReplica id nodeId) (.ok ()) (s.withChunk id (chunk.addStorageNode nodeId))

variable {env : Environment} {faults : Faults} {s s' : Services} {choice : Choice} {name : String}

/-- What `serveMetadata_effect` says about the memory of the metadata node. -/
def Answered (s : MetadataStore) (choice : Choice) (call : MetadataCall)
    (reply : Except Status call.Response) (s' : MetadataStore) : Prop :=
  ∃ reply' m, Effect s call reply' m ∧ SameMemory s' m ∧
    (reply = reply' ∨ choice.io ≠ .completes ∧ ∃ status, reply = .error status)

theorem Answered.of_effect {m m' : MetadataStore} {call : MetadataCall}
    {reply : Except Status call.Response} (h : Effect m call reply m') :
    Answered m choice call reply m' :=
  ⟨reply, m', h, .refl m', .inl rfl⟩

/-- A handler whose method fails. -/
theorem Answered.of_fails {m m' : MetadataStore} {call : MetadataCall} {error : IoError}
    {handler : Except Status call.Response × StorageMetadataImpl}
    (hmirrors : StorageMetadata.Mirrors handler ((.error error : IoResult Unit), m'))
    (heffect : ∀ status, Effect m call (.error status) m') :
    Answered m choice call handler.1 handler.2.metadataStore := by
  rcases hmirrors with ⟨hstore, hok⟩
  cases hreply : handler.1 with
  | error status => exact ⟨.error status, m', heffect status, hstore ▸ .refl _, .inl rfl⟩
  | ok value =>
      rcases hok.mp ⟨value, hreply⟩ with ⟨other, hother⟩
      cases hother

/-- A handler whose method ends with a `save`. -/
theorem Answered.of_saves {lib : StorageMetadata.External} {m m' : MetadataStore}
    {call : MetadataCall} {handler : Except Status call.Response × StorageMetadataImpl}
    (hmirrors : StorageMetadata.Mirrors handler (m'.save lib choice.io)) (value : call.Response)
    (heffect : ∀ value, Effect m call (.ok value) m') :
    Answered m choice call handler.1 handler.2.metadataStore := by
  rcases hmirrors with ⟨hstore, hok⟩
  have hmemory : SameMemory handler.2.metadataStore m' := hstore ▸ .of_save lib choice.io m'
  cases hreply : handler.1 with
  | ok value => exact ⟨.ok value, m', heffect value, hmemory, .inl rfl⟩
  | error status =>
      refine ⟨.ok value, m', heffect value, hmemory, .inr ⟨fun hio => ?_, status, rfl⟩⟩
      rcases hok.mpr ⟨(), MetadataStore.save_ok_iff.mpr hio⟩ with ⟨found, hfound⟩
      cases hreply.symm.trans hfound

/-- A listed chunk is what the listing makes of a confirmed record. -/
theorem listed_chunk (node : StorageMetadataImpl) (maxReplicas : UInt32) :
    ∀ chunk ∈ node.listUnderReplicatedChunks maxReplicas,
      ∃ record ∈ node.metadataStore.chunks.valueList, record.status = .confirmed ∧
        chunk = ⟨record.id, record.checksum, record.storageNodes⟩ := by
  intro chunk hchunk
  have hmem := (List.perm_insertionSort _ _).mem_iff.mp hchunk
  rcases List.mem_map.mp hmem with ⟨record, hrecord, rfl⟩
  have hfiltered := (List.perm_insertionSort _ _).mem_iff.mp hrecord
  rcases List.mem_filter.mp hfiltered with ⟨hlisted, hkept⟩
  have hstatus := of_decide_eq_true hkept
  exact ⟨record, hlisted, hstatus.1, rfl⟩

/-- The requests that only read. -/
theorem answered_read {call : MetadataCall} {reply : Except Status call.Response}
    (h : s.serveMetadata env choice call = some (reply, s'))
    (hcall : match call with
      | .listStorageNodes | .lookupObject _ | .resolveObject _ | .getStorageNode _
      | .listUnderReplicatedChunks _ => True
      | _ => False) :
    s' = s ∧ Answered s.metadata.metadataStore choice call reply s'.metadata.metadataStore := by
  cases call with
  | listStorageNodes =>
      cases h
      exact ⟨rfl, .of_effect (.listStorageNodes (.refl _))⟩
  | lookupObject objectName =>
      cases h
      refine ⟨rfl, .of_effect ?_⟩
      unfold MetadataStore.lookupObject MetadataStore.getObject
      cases hname : s.metadata.metadataStore.objects[objectName]? with
      | none => exact .refused _
      | some object => exact .lookupObject hname
  | resolveObject object =>
      cases h
      refine ⟨rfl, .of_effect ?_⟩
      cases hresponse : s.metadata.metadataStore.resolveObject object with
      | error status => exact .refused status
      | ok response => exact .resolveObject hresponse
  | getStorageNode id =>
      cases h
      refine ⟨rfl, .of_effect ?_⟩
      unfold StorageMetadataImpl.getStorageNode MetadataStore.getStorageNode
      cases hid : s.metadata.metadataStore.storageNodes[id]? with
      | none => exact .refused _
      | some node => exact .getStorageNode hid
  | listUnderReplicatedChunks maxReplicas =>
      cases h
      exact ⟨rfl, .of_effect (.listUnderReplicatedChunks (listed_chunk s.metadata maxReplicas))⟩
  | putObject _ _ | allocateChunk _ _ | confirmChunk _ _ _ _ | deleteChunk _ | deleteObject _
  | updateObjectChecksum _ _ _ | addChunkReplica _ _ => exact hcall.elim

/-- What the metadata node answers, however the file steps go. -/
theorem serveMetadata_effect {call : MetadataCall} {reply : Except Status call.Response}
    (h : s.serveMetadata env choice call = some (reply, s')) :
    s'.nodes = s.nodes ∧ s'.storageConnections = s.storageConnections ∧
      Answered s.metadata.metadataStore choice call reply s'.metadata.metadataStore := by
  cases call with
  | listStorageNodes | lookupObject _ | resolveObject _ | getStorageNode _
  | listUnderReplicatedChunks _ =>
      rcases answered_read h trivial with ⟨rfl, hanswered⟩
      exact ⟨rfl, rfl, hanswered⟩
  | putObject checksum name =>
      cases h
      refine ⟨rfl, rfl, ?_⟩
      have hmirrors := @StorageMetadata.putObject_mirrors env.lib choice.io s.metadata checksum name
      rcases MetadataStore.putObject_effect env.lib choice.io s.metadata.metadataStore checksum
        name with ⟨object, _, heffect⟩ | ⟨hname, heffect⟩
      · rw [heffect] at hmirrors
        exact .of_fails hmirrors .refused
      · rw [heffect] at hmirrors
        exact .of_saves hmirrors () fun _ => .putObject checksum hname
  | allocateChunk name checksum =>
      rcases Option.map_eq_some_iff.mp h with ⟨⟨result, node⟩, hhandler, hs'⟩
      cases hs'
      refine ⟨rfl, rfl, ?_⟩
      rcases StorageMetadata.allocateChunk_mirrors hhandler with
        ⟨method, hmethod, hstore, hreply, hfails⟩
      rcases MetadataStore.allocateChunk_effect hmethod with
        ⟨_, rfl⟩ | ⟨id, chosen, hid, hnode, rfl⟩
      · rcases hfails _ rfl with ⟨status, rfl⟩
        exact ⟨_, _, .refused status, hstore ▸ .refl _, .inl rfl⟩
      · have hchosen := StorageMetadata.chooseStorageNode_mem hnode
        refine ⟨_, _, .allocateChunk name checksum (StorageMetadata.generateUniqueId_fresh hid)
          hchosen, hstore ▸ .refl _, .inl ?_⟩
        exact hreply id chosen.id chosen.address rfl
  | confirmChunk id name checksum nodeId =>
      cases h
      refine ⟨rfl, rfl, ?_⟩
      have hmirrors := @StorageMetadata.confirmChunk_mirrors env.lib choice.io s.metadata id name
        checksum nodeId
      rcases MetadataStore.confirmChunk_effect env.lib choice.io s.metadata.metadataStore id name
        checksum nodeId with ⟨error, heffect⟩ | ⟨object, hname, hnode, hid, heffect⟩
      · rw [heffect] at hmirrors
        exact .of_fails hmirrors .refused
      · rw [heffect] at hmirrors
        exact .of_saves hmirrors () fun _ => .confirmChunk checksum hname hnode hid
  | deleteChunk id =>
      cases h
      refine ⟨rfl, rfl, ?_⟩
      have hmirrors := @StorageMetadata.deleteChunk_mirrors env.lib choice.io s.metadata id
      rcases MetadataStore.deleteChunk_effect env.lib choice.io s.metadata.metadataStore id with
        ⟨_, heffect⟩ | ⟨chunk, hid, ⟨hname, heffect⟩ | ⟨object, hname, heffect⟩⟩
      · rw [heffect] at hmirrors
        exact .of_fails hmirrors .refused
      · rw [heffect] at hmirrors
        exact .of_fails hmirrors (.deleteOrphan hid hname)
      · rw [heffect] at hmirrors
        exact .of_saves hmirrors () fun _ => .deleteChunk hid hname
  | deleteObject name =>
      cases h
      refine ⟨rfl, rfl, ?_⟩
      have hmirrors := @StorageMetadata.deleteObject_mirrors env.lib choice.io s.metadata name
      rcases MetadataStore.deleteObject_effect env.lib choice.io s.metadata.metadataStore name with
        ⟨_, heffect⟩ | ⟨object, hname, heffect⟩
      · rw [heffect] at hmirrors
        exact .of_fails hmirrors .refused
      · rw [heffect] at hmirrors
        exact .of_saves hmirrors () fun _ => .deleteObject hname
  | updateObjectChecksum name checksum totalSize =>
      cases h
      refine ⟨rfl, rfl, ?_⟩
      have hmirrors := @StorageMetadata.updateObjectChecksum_mirrors env.lib choice.io s.metadata
        name checksum totalSize
      rcases MetadataStore.updateObjectChecksum_effect env.lib choice.io s.metadata.metadataStore
        name checksum totalSize with ⟨_, heffect⟩ | ⟨object, hname, heffect⟩
      · rw [heffect] at hmirrors
        exact .of_fails hmirrors .refused
      · rw [heffect] at hmirrors
        exact .of_saves hmirrors () fun _ => .updateObjectChecksum checksum totalSize hname
  | addChunkReplica id nodeId =>
      cases h
      refine ⟨rfl, rfl, ?_⟩
      have hmirrors := @StorageMetadata.addChunkReplica_mirrors env.lib choice.io s.metadata id
        nodeId
      rcases MetadataStore.addChunkReplica_effect env.lib choice.io s.metadata.metadataStore id
        nodeId with ⟨error, heffect⟩ | ⟨chunk, hid, hnode, hnew, hroom, heffect⟩
      · rw [heffect] at hmirrors
        exact .of_fails hmirrors .refused
      · rw [heffect] at hmirrors
        exact .of_saves hmirrors () fun _ => .addChunkReplica hid hnode hnew hroom

/-- What a call to the metadata node does when failures have no effect. -/
theorem Step.metadata_effect (hfaults : faults ≠ .any) {call : MetadataCall}
    {reply : Except Status call.Response} (h : Step env faults s (.metadata call) reply s') :
    s'.nodes = s.nodes ∧ s'.storageConnections = s.storageConnections ∧
      ∃ m, Effect s.metadata.metadataStore call reply m ∧
        SameMemory s'.metadata.metadataStore m := by
  cases h with
  | served hio hserve =>
      rcases serveMetadata_effect hserve with ⟨hnodes, hconnections, _, m, heffect, hmemory, hreply⟩
      refine ⟨hnodes, hconnections, m, ?_, hmemory⟩
      rcases hreply with rfl | ⟨hfailed, _⟩
      · exact heffect
      · rcases hio with hio | hany
        · exact absurd hio hfailed
        · exact absurd hany hfaults
  | nodesListed hnodes => exact ⟨rfl, rfl, _, .listStorageNodes hnodes, .refl _⟩
  | chunksListed hchunks _ =>
      refine ⟨rfl, rfl, _, .listUnderReplicatedChunks fun chunk hchunk => ?_, .refl _⟩
      exact listed_chunk _ _ chunk (hchunks.mem_iff.mp hchunk)
  | failed _ hfails =>
      rcases hfails with ⟨status, rfl⟩
      exact ⟨rfl, rfl, _, .refused status, .refl _⟩
  | lost hany _ _ => exact absurd hany hfaults

/-- The same when failures may take effect: a failed call has done what an answered one
does, or nothing. -/
theorem Step.metadata_effect_any {call : MetadataCall} {reply : Except Status call.Response}
    (h : Step env .any s (.metadata call) reply s') :
    ∃ reply' m, Effect s.metadata.metadataStore call reply' m ∧
      SameMemory s'.metadata.metadataStore m ∧
      (reply = reply' ∨ ∃ status, reply = .error status) := by
  cases h with
  | served hio hserve =>
      rcases serveMetadata_effect hserve with ⟨_, _, reply', m, heffect, hmemory, hreply⟩
      exact ⟨reply', m, heffect, hmemory, hreply.imp id And.right⟩
  | nodesListed hnodes => exact ⟨_, _, .listStorageNodes hnodes, .refl _, .inl rfl⟩
  | chunksListed hchunks _ =>
      refine ⟨_, _, .listUnderReplicatedChunks fun chunk hchunk => ?_, .refl _, .inl rfl⟩
      exact listed_chunk _ _ chunk (hchunks.mem_iff.mp hchunk)
  | failed _ hfails =>
      rcases hfails with ⟨status, rfl⟩
      exact ⟨_, _, .refused status, .refl _, .inl rfl⟩
  | lost _ hserve hfails =>
      rcases serveMetadata_effect hserve with ⟨_, _, reply', m, heffect, hmemory, _⟩
      exact ⟨reply', m, heffect, hmemory, .inr hfails⟩

/-- The metadata node does not reach the storage nodes. -/
theorem Step.metadata_nodes {call : MetadataCall} {reply : Except Status call.Response}
    (h : Step env faults s (.metadata call) reply s') : s'.nodes = s.nodes := by
  cases h with
  | served _ hserve => exact (serveMetadata_effect hserve).1
  | nodesListed _ | chunksListed _ _ => rfl
  | failed _ _ => rfl
  | lost _ hserve _ => exact (serveMetadata_effect hserve).1

/-! ## Calls that succeed -/

/-- A handler whose method returns `Ok` has saved. -/
theorem io_of_ok (op : StorageMetadata.Op) {lib : StorageMetadata.External} {io : SaveIo}
    {m : MetadataStore} {handler : Except Status Unit × StorageMetadataImpl}
    {method : IoResult Unit × MetadataStore} (happly : op.apply lib io m = some method)
    (hmirrors : StorageMetadata.Mirrors handler method) (hop : ¬ op.Volatile)
    (hok : ∃ value, handler.1 = .ok value) : io = .completes := by
  rcases hmirrors.2.mp hok with ⟨value, hvalue⟩
  have hmethod : method = (.ok (), method.2) := Prod.ext hvalue rfl
  rw [hmethod] at happly
  exact (StorageMetadata.Op.ok_completes happly hop).2

/-- A metadata call that succeeds has not met a failing file step. -/
theorem serveMetadata_completes {call : MetadataCall} {value : call.Response}
    (h : s.serveMetadata env choice call = some (.ok value, s')) :
    s.serveMetadata env { choice with io := .completes } call = some (.ok value, s') := by
  have hsame : choice.io = .completes →
      s.serveMetadata env { choice with io := .completes } call = some (.ok value, s') := by
    intro hio
    rw [← hio]
    exact h
  cases call with
  | listStorageNodes | lookupObject _ | resolveObject _ | getStorageNode _
  | listUnderReplicatedChunks _ | allocateChunk _ _ => exact h
  | putObject checksum name =>
      have hok := congrArg Prod.fst (Option.some.inj h)
      have hmirrors := @StorageMetadata.putObject_mirrors env.lib choice.io s.metadata checksum name
      exact hsame (io_of_ok (.putObject checksum name) rfl hmirrors not_false ⟨value, hok⟩)
  | confirmChunk id name checksum nodeId =>
      have hok := congrArg Prod.fst (Option.some.inj h)
      have hmirrors := @StorageMetadata.confirmChunk_mirrors env.lib choice.io s.metadata id name
        checksum nodeId
      exact hsame (io_of_ok (.confirmChunk id name checksum nodeId) rfl hmirrors not_false
        ⟨value, hok⟩)
  | deleteChunk id =>
      have hok := congrArg Prod.fst (Option.some.inj h)
      have hmirrors := @StorageMetadata.deleteChunk_mirrors env.lib choice.io s.metadata id
      exact hsame (io_of_ok (.deleteChunk id) rfl hmirrors not_false ⟨value, hok⟩)
  | deleteObject name =>
      have hok := congrArg Prod.fst (Option.some.inj h)
      have hmirrors := @StorageMetadata.deleteObject_mirrors env.lib choice.io s.metadata name
      exact hsame (io_of_ok (.deleteObject name) rfl hmirrors not_false ⟨value, hok⟩)
  | updateObjectChecksum name checksum totalSize =>
      have hok := congrArg Prod.fst (Option.some.inj h)
      have hmirrors := @StorageMetadata.updateObjectChecksum_mirrors env.lib choice.io s.metadata
        name checksum totalSize
      exact hsame (io_of_ok (.updateObjectChecksum name checksum totalSize) rfl hmirrors not_false
        ⟨value, hok⟩)
  | addChunkReplica id nodeId =>
      have hok := congrArg Prod.fst (Option.some.inj h)
      have hmirrors := @StorageMetadata.addChunkReplica_mirrors env.lib choice.io s.metadata id
        nodeId
      exact hsame (io_of_ok (.addChunkReplica id nodeId) rfl hmirrors not_false ⟨value, hok⟩)

/-- A call that succeeds has not met a failure. -/
theorem Step.of_ok {call : Call} {reply : call.Reply} (h : Step env .any s call reply s')
    (hok : ¬ call.Fails reply) : Step env .none s call reply s' := by
  cases h with
  | @served _ _ _ _ choice _ hserve =>
      cases call with
      | metadata call =>
          change Except Status call.Response at reply
          cases reply with
          | error status => exact absurd ⟨status, rfl⟩ hok
          | ok value => exact .served (.inl rfl) (serveMetadata_completes hserve)
      | connect _ | storageNode _ _ | cachedConnection _ | connectCached _ | choose _ | turn =>
          have hserve : s.serve env { choice with io := .completes } _ = some (reply, s') := hserve
          exact .served (.inl rfl) hserve
  | nodesListed hnodes => exact .nodesListed hnodes
  | chunksListed hchunks hsorted => exact .chunksListed hchunks hsorted
  | failed _ hfails => exact absurd hfails hok
  | lost _ _ hfails => exact absurd hfails hok

/-- The other calls do not reach the metadata node. -/
theorem Step.metadata_eq {call : Call} {reply : call.Reply}
    (hcall : ∀ request, call ≠ .metadata request) (h : Step env faults s call reply s') :
    s'.metadata = s.metadata := by
  have hserved : ∀ {choice : Choice} {reply : call.Reply},
      s.serve env choice call = some (reply, s') → s'.metadata = s.metadata := by
    intro choice reply hserve
    unfold Services.serve at hserve
    split at hserve
    · exact absurd rfl (hcall _)
    · split at hserve <;> cases hserve <;> rfl
    · split at hserve <;> cases hserve <;> rfl
    · cases hserve
      rfl
    · split at hserve
      · cases hserve
        rfl
      · split at hserve <;> cases hserve <;> rfl
    · split at hserve <;> cases hserve
      rfl
    · cases hserve
      rfl
  cases h with
  | served _ hserve => exact hserved hserve
  | nodesListed _ | chunksListed _ _ => exact absurd rfl (hcall _)
  | failed _ _ => rfl
  | lost _ hserve _ => exact hserved hserve

/-- What a lookup is answered with, unless it fails. -/
theorem Step.lookupObject_reply {reply : Except Status MetaObject} (hfaults : faults ≠ .any)
    (h : Step env faults s (.metadata (.lookupObject name)) reply s') :
    reply = s.metadata.metadataStore.lookupObject name ∨
      faults ≠ .none ∧ ∃ status, reply = .error status := by
  cases h with
  | served _ hserve =>
      cases hserve
      exact .inl rfl
  | failed hfails hreply => exact .inr ⟨hfails, hreply⟩
  | lost hany _ _ => exact absurd hany hfaults

theorem Step.resolveObject_reply {object : MetaObject}
    {reply : Except Status StorageMetadata.Proto.GetObjectResponse} (hfaults : faults ≠ .any)
    (h : Step env faults s (.metadata (.resolveObject object)) reply s') :
    reply = s.metadata.metadataStore.resolveObject object ∨
      faults ≠ .none ∧ ∃ status, reply = .error status := by
  cases h with
  | served _ hserve =>
      cases hserve
      exact .inl rfl
  | failed hfails hreply => exact .inr ⟨hfails, hreply⟩
  | lost hany _ _ => exact absurd hany hfaults

/-- A listing has the chunks with too few replicas, sorted by their number. -/
theorem Step.chunks_listed {maxReplicas : UInt32} {chunks : List UnderReplicatedChunk}
    (h : Step env faults s (.metadata (.listUnderReplicatedChunks maxReplicas)) (.ok chunks) s') :
    chunks.Perm (s.metadata.listUnderReplicatedChunks maxReplicas) ∧
      chunks.Pairwise fun a b =>
        a.currentStorageNodeIds.length ≤ b.currentStorageNodeIds.length := by
  cases h with
  | served _ hserve =>
      cases hserve
      exact ⟨.refl _, List.pairwise_insertionSort _ _⟩
  | chunksListed hchunks hsorted => exact ⟨hchunks, hsorted⟩
  | failed _ hfails =>
      rcases hfails with ⟨status, hstatus⟩
      cases hstatus
  | lost _ _ hfails =>
      rcases hfails with ⟨status, hstatus⟩
      cases hstatus

/-- All registered nodes are listed. -/
theorem Step.nodes_listed {nodes : List StorageMetadata.Proto.MetaStorageNode}
    (h : Step env faults s (.metadata .listStorageNodes) (.ok nodes) s') :
    nodes.Perm s.metadata.listStorageNodes := by
  rcases h.any.metadata_effect_any with ⟨_, m, heffect, _, rfl | ⟨_, hfailed⟩⟩
  · cases heffect with
    | listStorageNodes hnodes => exact hnodes
  · cases hfailed

/-- A replica is recorded, or the call fails without an effect. -/
theorem Step.addChunkReplica_chunks {id nodeId : UInt64} {reply : Except Status Unit}
    (h : Step env faults s (.metadata (.addChunkReplica id nodeId)) reply s') :
    (∃ status, reply = .error status) ∧
        s'.metadata.metadataStore.chunks = s.metadata.metadataStore.chunks ∨
      ∃ record, s.metadata.metadataStore.chunks[id]? = some record ∧
        s'.metadata.metadataStore.chunks =
          s.metadata.metadataStore.chunks.insert id (record.addStorageNode nodeId) := by
  rcases h.any.metadata_effect_any with ⟨reply', m, heffect, hmemory, hreply⟩
  cases heffect with
  | refused status =>
      refine .inl ⟨?_, hmemory.chunks⟩
      rcases hreply with heq | herror
      · exact ⟨status, heq⟩
      · exact herror
  | @addChunkReplica _ _ record hid hnode hnew hroom => exact .inr ⟨record, hid, hmemory.chunks⟩

theorem Step.addChunkReplica_storageNodes {id nodeId : UInt64} {reply : Except Status Unit}
    (h : Step env faults s (.metadata (.addChunkReplica id nodeId)) reply s') :
    s'.metadata.metadataStore.storageNodes = s.metadata.metadataStore.storageNodes := by
  rcases h.any.metadata_effect_any with ⟨reply', m, heffect, hmemory, _⟩
  rw [hmemory.storageNodes]
  cases heffect <;> rfl

/-! ## Which names are stored -/

/-- The name is stored. -/
def Services.Has (s : Services) (name : String) : Prop :=
  name ∈ s.metadata.metadataStore.objects

/-- The call creates or deletes the object `name`. -/
def Call.Concerns (name : String) : Call → Prop
  | .metadata (.putObject _ other) => other = name
  | .metadata (.deleteObject other) => other = name
  | _ => False

/-- A name stays stored when its object is replaced. -/
theorem mem_insert_of_stored {objects : HashMap String MetaObject} {other : String}
    {object found : MetaObject} (hother : objects[other]? = some found) :
    name ∈ objects.insert other object ↔ name ∈ objects := by
  rw [Std.ExtTreeMap.mem_insert]
  constructor
  · rintro (heq | hmem)
    · rw [← Std.LawfulEqCmp.eq_of_compare heq]
      exact HashMap.mem_iff_exists_getElem?.mpr ⟨found, hother⟩
    · exact hmem
  · exact .inr

/-- Calls that do not concern a name leave its object alone. -/
theorem Effect.mem_objects_iff {m m' : MetadataStore} {call : MetadataCall}
    {reply : Except Status call.Response} (h : Effect m call reply m')
    (hcall : ¬ (Call.metadata call).Concerns name) : name ∈ m'.objects ↔ name ∈ m.objects := by
  cases h with
  | putObject checksum hname =>
      have hne : ¬ compare _ name = .eq := fun heq => hcall (Std.LawfulEqCmp.eq_of_compare heq)
      simp only [MetadataStore.withObject, Std.ExtTreeMap.mem_insert, hne, false_or]
  | deleteObject hname =>
      have hne : ¬ compare _ name = .eq := fun heq => hcall (Std.LawfulEqCmp.eq_of_compare heq)
      simp only [MetadataStore.withoutObject, Std.ExtTreeMap.mem_erase, ne_eq, hne,
        not_false_eq_true, true_and]
  | confirmChunk checksum hname hnode hid => exact mem_insert_of_stored hname
  | deleteChunk hid hname => exact mem_insert_of_stored hname
  | updateObjectChecksum checksum totalSize hname => exact mem_insert_of_stored hname
  | refused _ | listStorageNodes _ | allocateChunk _ _ _ _ | lookupObject _ | resolveObject _
  | deleteOrphan _ _ _ | getStorageNode _ | listUnderReplicatedChunks _
  | addChunkReplica _ _ _ _ => rfl

/-- Only creations and deletions of a name change whether it is stored. -/
theorem Step.has_iff {call : Call} {reply : call.Reply} (h : Step env faults s call reply s')
    (hcall : ¬ call.Concerns name) : s'.Has name ↔ s.Has name := by
  unfold Services.Has
  by_cases hmetadata : ∃ request, call = .metadata request
  · rcases hmetadata with ⟨request, rfl⟩
    rcases h.any.metadata_effect_any with ⟨_, m, heffect, hmemory, _⟩
    rw [hmemory.objects]
    exact heffect.mem_objects_iff hcall
  · rw [h.metadata_eq fun request heq => hmetadata ⟨request, heq⟩]

/-- After an acknowledged creation the name is stored. -/
theorem Step.has_of_putObject {checksum : UInt32}
    (h : Step env faults s (.metadata (.putObject checksum name)) (.ok ()) s') : s'.Has name := by
  rcases h.any.metadata_effect_any with ⟨reply', m, heffect, hmemory, rfl | ⟨status, hfailed⟩⟩
  · cases heffect
    unfold Services.Has
    rw [hmemory.objects]
    exact Std.ExtTreeMap.mem_insert_self
  · cases hfailed

/-- After an acknowledged deletion it is not. -/
theorem Step.not_has_of_deleteObject
    (h : Step env faults s (.metadata (.deleteObject name)) (.ok ()) s') : ¬ s'.Has name := by
  rcases h.any.metadata_effect_any with ⟨reply', m, heffect, hmemory, rfl | ⟨status, hfailed⟩⟩
  · cases heffect
    unfold Services.Has
    rw [hmemory.objects]
    simp [MetadataStore.withoutObject]
  · cases hfailed

/-! ## The storage nodes -/

/-- What an answered request has done to the storage nodes. -/
inductive NodeEffect (env : Environment) (nodes : HashMap String BoundedMap) (address : String) :
    (call : StorageNode.Call) → Except Status call.Response → HashMap String BoundedMap → Prop where
  | refused {call : StorageNode.Call} (status : Status) :
      NodeEffect env nodes address call (.error status) nodes
  | writeChunk {node node' : BoundedMap} {id : UInt64} {bytes : Bytes}
      (hnode : nodes[address]? = some node) (hid : id ∉ node.live)
      (hlive : node'.live = node.live.insert id bytes) :
      NodeEffect env nodes address (.writeChunk id bytes) (.ok id) (nodes.insert address node')
  | readChunk {node : BoundedMap} {id : UInt64} {bytes : Bytes}
      (hnode : nodes[address]? = some node) (hid : node.live[id]? = some bytes) :
      NodeEffect env nodes address (.readChunk id) (.ok ⟨id, bytes, env.crc32 bytes⟩) nodes
  | deleteChunk {node : BoundedMap} {id : UInt64} (hnode : nodes[address]? = some node) :
      NodeEffect env nodes address (.deleteChunk id) (.ok id)
        (nodes.insert address (node.delete id))
  | getFreeChunks (free : Nat) : NodeEffect env nodes address .getFreeChunks (.ok free) nodes
  | getChunkSize : NodeEffect env nodes address .getChunkSize (.ok env.chunkSize) nodes

/-- A call to a storage node leaves the metadata alone. -/
theorem serve_nodeEffect {address : String} {call : StorageNode.Call}
    {reply : Except Status call.Response}
    (h : s.serve env choice (.storageNode address call) = some (reply, s')) :
    s'.metadata = s.metadata ∧ s'.storageConnections = s.storageConnections ∧
      NodeEffect env s.nodes address call reply s'.nodes := by
  unfold Services.serve at h
  dsimp only at h
  split at h
  · cases h
    exact ⟨rfl, rfl, .refused _⟩
  · rename_i node hnode
    have hsame : s.nodes.insert address node = s.nodes := HashMap.insert_of_getElem? hnode
    cases call with
    | writeChunk id bytes =>
        simp only [BoundedMap.handle] at h
        split at h
        · cases h
          refine ⟨rfl, rfl, ?_⟩
          simp only [hsame]
          exact .refused _
        · rename_i hid
          split at h
          · cases h
            refine ⟨rfl, rfl, ?_⟩
            simp only [hsame]
            exact .refused _
          · cases h
            exact ⟨rfl, rfl, .writeChunk hnode hid rfl⟩
    | readChunk id =>
        simp only [BoundedMap.handle] at h
        cases hid : node.live[id]? with
        | none =>
            simp only [hid] at h
            cases h
            refine ⟨rfl, rfl, ?_⟩
            simp only [hsame]
            exact .refused _
        | some bytes =>
            simp only [hid] at h
            cases h
            refine ⟨rfl, rfl, ?_⟩
            simp only [hsame]
            exact .readChunk hnode hid
    | deleteChunk id =>
        cases h
        exact ⟨rfl, rfl, .deleteChunk hnode⟩
    | getFreeChunks =>
        simp only [BoundedMap.handle] at h
        cases h
        refine ⟨rfl, rfl, ?_⟩
        simp only [hsame]
        exact .getFreeChunks _
    | getChunkSize =>
        simp only [BoundedMap.handle] at h
        cases h
        refine ⟨rfl, rfl, ?_⟩
        simp only [hsame]
        exact .getChunkSize

/-- What a call to a storage node does when failures have no effect. -/
theorem Step.storageNode_effect (hfaults : faults ≠ .any) {address : String}
    {call : StorageNode.Call} {reply : Except Status call.Response}
    (h : Step env faults s (.storageNode address call) reply s') :
    s'.metadata = s.metadata ∧ s'.storageConnections = s.storageConnections ∧
      NodeEffect env s.nodes address call reply s'.nodes := by
  cases h with
  | served _ hserve => exact serve_nodeEffect hserve
  | failed _ hfails =>
      rcases hfails with ⟨status, rfl⟩
      exact ⟨rfl, rfl, .refused status⟩
  | lost hany _ _ => exact absurd hany hfaults

/-- The same when failures may take effect. -/
theorem Step.storageNode_effect_any {address : String} {call : StorageNode.Call}
    {reply : Except Status call.Response}
    (h : Step env .any s (.storageNode address call) reply s') :
    s'.metadata = s.metadata ∧ ∃ reply', NodeEffect env s.nodes address call reply' s'.nodes ∧
      (reply = reply' ∨ ∃ status, reply = .error status) := by
  cases h with
  | served _ hserve =>
      rcases serve_nodeEffect hserve with ⟨hmetadata, _, heffect⟩
      exact ⟨hmetadata, reply, heffect, .inl rfl⟩
  | failed _ hfails => exact ⟨rfl, _, .refused ⟨.unavailable, ""⟩, .inr hfails⟩
  | lost _ hserve hfails =>
      rcases serve_nodeEffect hserve with ⟨hmetadata, _, heffect⟩
      exact ⟨hmetadata, _, heffect, .inr hfails⟩

/-! ## Data on the storage nodes -/

/-- What the storage node at `address` holds of a chunk. -/
def Services.dataAt (s : Services) (address : String) (id : UInt64) : Option Bytes :=
  (s.nodes[address]?).bind fun node => node.live[id]?

/-- The data that the node at an address has for an id. -/
theorem Services.dataAt_eq_some_iff {address : String} {id : UInt64} {bytes : Bytes} :
    s.dataAt address id = some bytes ↔
      ∃ node, s.nodes[address]? = some node ∧ node.live[id]? = some bytes := by
  simp only [Services.dataAt, Option.bind_eq_some_iff]

/-- Nothing has changed but the gateway's cache. -/
structure SameServices (s s' : Services) : Prop where
  memory : SameMemory s'.metadata.metadataStore s.metadata.metadataStore
  nodes : s'.nodes = s.nodes

theorem SameServices.refl (s : Services) : SameServices s s := ⟨.refl _, rfl⟩

theorem SameServices.trans {s'' : Services} (h : SameServices s s') (h' : SameServices s' s'') :
    SameServices s s'' where
  memory :=
    { objects := h'.memory.objects.trans h.memory.objects
      chunks := h'.memory.chunks.trans h.memory.chunks
      storageNodes := h'.memory.storageNodes.trans h.memory.storageNodes }
  nodes := h'.nodes.trans h.nodes

/-- The same services hold the same data. -/
theorem SameServices.dataAt (h : SameServices s s') (address : String) (id : UInt64) :
    s'.dataAt address id = s.dataAt address id := by
  simp only [Services.dataAt, h.nodes]

theorem SameServices.listStorageNodes (h : SameServices s s') :
    s'.metadata.listStorageNodes = s.metadata.listStorageNodes := by
  rw [StorageMetadataImpl.listStorageNodes, MetadataStore.listStorageNodes,
    h.memory.storageNodes]
  rfl

/-- The calls that read only. -/
def Call.Reads : Call → Prop
  | .metadata call =>
      match call with
      | .listStorageNodes | .lookupObject _ | .resolveObject _ | .getStorageNode _
      | .listUnderReplicatedChunks _ => True
      | _ => False
  | .storageNode _ call =>
      match call with
      | .readChunk _ | .getFreeChunks | .getChunkSize => True
      | _ => False
  | .connect _ | .cachedConnection _ | .connectCached _ | .choose _ | .turn => True

/-- The calls that reach no service. -/
theorem serve_local {call : Call} {reply : call.Reply}
    (hcall : match call with
      | .metadata _ | .storageNode _ _ => False
      | _ => True)
    (h : s.serve env choice call = some (reply, s')) : SameServices s s' := by
  unfold Services.serve at h
  split at h
  · exact hcall.elim
  · split at h <;> cases h <;> exact .refl s
  · exact hcall.elim
  · cases h
    exact .refl s
  · split at h
    · cases h
      exact .refl s
    · split at h <;> cases h
      · exact ⟨.refl _, rfl⟩
      · exact .refl s
  · split at h <;> cases h
    exact .refl s
  · cases h
    exact .refl s

/-- Reads change nothing. -/
theorem Step.reads {call : Call} {reply : call.Reply} (h : Step env faults s call reply s')
    (hcall : call.Reads) : SameServices s s' := by
  cases call with
  | metadata call =>
      rcases h.any.metadata_effect_any with ⟨_, m, heffect, hmemory, _⟩
      refine ⟨?_, h.metadata_nodes⟩
      cases heffect with
      | refused _ | listStorageNodes _ | lookupObject _ | resolveObject _ | getStorageNode _
      | listUnderReplicatedChunks _ => exact hmemory
      | putObject _ _ | allocateChunk _ _ _ _ | confirmChunk _ _ _ _ | deleteChunk _ _
      | deleteOrphan _ _ _ | deleteObject _ | updateObjectChecksum _ _ _
      | addChunkReplica _ _ _ _ => exact hcall.elim
  | storageNode address call =>
      rcases h.any.storageNode_effect_any with ⟨hmetadata, _, heffect, _⟩
      refine ⟨hmetadata ▸ .refl _, ?_⟩
      generalize s'.nodes = nodes at heffect
      cases heffect with
      | refused _ | readChunk _ _ | getFreeChunks _ | getChunkSize => rfl
      | writeChunk _ _ _ | deleteChunk _ => exact hcall.elim
  | connect _ | cachedConnection _ | connectCached _ | choose _ | turn =>
      cases h with
      | failed _ _ => exact .refl s
      | lost _ hserve _ => exact serve_local trivial hserve
      | served _ hserve => exact serve_local trivial hserve

/-- Data after a deletion. -/
theorem NodeEffect.deleteChunk_dataAt {address : String} {id : UInt64}
    {reply : Except Status UInt64}
    (h : NodeEffect env s.nodes address (.deleteChunk id) reply s'.nodes) (other : String)
    (otherId : UInt64) :
    s'.dataAt other otherId =
      if reply.isOk ∧ other = address ∧ otherId = id then none else s.dataAt other otherId := by
  unfold Services.dataAt
  generalize s'.nodes = nodes at h
  cases h with
  | refused status => simp [Except.isOk, Except.toBool]
  | @deleteChunk node _ hnode =>
      by_cases haddress : other = address
      · subst haddress
        by_cases hid : otherId = id
        · subst hid
          simp [BoundedMap.delete, Except.isOk, Except.toBool]
        · have hne : id ≠ otherId := fun heq => hid heq.symm
          simp [BoundedMap.delete, Except.isOk, Except.toBool, hnode, hid, hne,
            Std.ExtTreeMap.getElem?_erase, Std.LawfulEqCmp.compare_eq_iff_eq]
      · have hne : address ≠ other := fun heq => haddress heq.symm
        simp [haddress, Std.ExtTreeMap.getElem?_insert, Std.LawfulEqCmp.compare_eq_iff_eq, hne]

/-- A deletion takes away the data of one chunk on one node, if any. -/
theorem Step.deleteChunk_dataAt {address : String} {id : UInt64} {reply : Except Status UInt64}
    (hfaults : faults ≠ .any)
    (h : Step env faults s (.storageNode address (.deleteChunk id)) reply s') (other : String)
    (otherId : UInt64) :
    s'.dataAt other otherId =
      if reply.isOk ∧ other = address ∧ otherId = id then none else s.dataAt other otherId :=
  (h.storageNode_effect hfaults).2.2.deleteChunk_dataAt other otherId

/-- Data after a write. -/
theorem NodeEffect.writeChunk_dataAt {address : String} {id : UInt64} {bytes : Bytes}
    {reply : Except Status UInt64}
    (h : NodeEffect env s.nodes address (.writeChunk id bytes) reply s'.nodes) :
    (reply.isOk → s.dataAt address id = none) ∧ ∀ (other : String) (otherId : UInt64),
      s'.dataAt other otherId =
        if reply.isOk ∧ other = address ∧ otherId = id then some bytes
        else s.dataAt other otherId := by
  unfold Services.dataAt
  generalize s'.nodes = nodes at h
  cases h with
  | refused status => simp [Except.isOk, Except.toBool]
  | @writeChunk node node' _ _ hnode hid hlive =>
      refine ⟨fun _ => by simp [hnode, hid], fun other otherId => ?_⟩
      by_cases haddress : other = address
      · subst haddress
        by_cases hid : otherId = id
        · subst hid
          simp [hlive, Except.isOk, Except.toBool]
        · have hne : id ≠ otherId := fun heq => hid heq.symm
          simp [hlive, Except.isOk, Except.toBool, hnode, hid, hne,
            Std.ExtTreeMap.getElem?_insert, Std.LawfulEqCmp.compare_eq_iff_eq]
      · have hne : address ≠ other := fun heq => haddress heq.symm
        simp [haddress, Std.ExtTreeMap.getElem?_insert, Std.LawfulEqCmp.compare_eq_iff_eq, hne]

/-- A write that succeeds stores the data of a new chunk. -/
theorem Step.writeChunk_dataAt {address : String} {id : UInt64} {bytes : Bytes}
    {reply : Except Status UInt64} (hfaults : faults ≠ .any)
    (h : Step env faults s (.storageNode address (.writeChunk id bytes)) reply s') :
    (reply.isOk → s.dataAt address id = none) ∧ ∀ (other : String) (otherId : UInt64),
      s'.dataAt other otherId =
        if reply.isOk ∧ other = address ∧ otherId = id then some bytes
        else s.dataAt other otherId :=
  (h.storageNode_effect hfaults).2.2.writeChunk_dataAt

/-- An acknowledged write has left the bytes. -/
theorem Step.written {address : String} {id : UInt64} {bytes : Bytes} {value : UInt64}
    (h : Step env faults s (.storageNode address (.writeChunk id bytes)) (.ok value) s') :
    s.dataAt address id = none ∧ ∀ (other : String) (otherId : UInt64), s'.dataAt other otherId =
      if other = address ∧ otherId = id then some bytes else s.dataAt other otherId := by
  have hok : ¬ Call.Fails (.storageNode address (.writeChunk id bytes))
      (.ok value : Except Status UInt64) := by
    rintro ⟨status, hstatus⟩
    cases hstatus
  have hnone : Faults.none ≠ .any := by decide
  rcases (h.any.of_ok hok).writeChunk_dataAt hnone with ⟨hfree, hdata⟩
  refine ⟨hfree rfl, fun other otherId => ?_⟩
  rw [hdata]
  simp [Except.isOk, Except.toBool]

end Deployment
end ObjectStore
